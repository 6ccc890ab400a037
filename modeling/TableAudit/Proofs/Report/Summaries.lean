import Mathlib.Data.List.Nodup
import TableAudit.Proofs.Report.Grouping

/-!
# Summaries of violations

Violations are summed up by problem and column. There is one summary for every problem and column
that occur together; summaries are ordered by the first occurrence of the problem, and under a
problem by that of the column. A summary lists the rows that its violations concern, so the order
of the violations decides on nothing but the order of the summaries.
-/

namespace TableAudit

variable {vs ws : List Violation} {v : Violation} {rows rows' : List Nat} {m n : Nat}

/-- A violation concerns its own row and, if it is one of uniqueness, the rows that it conflicts
with. -/
def Violation.Concerns (v : Violation) (n : Nat) : Prop :=
  n = v.rowNumber ∨ v.isUniqueness = true ∧ ∃ rows, v.conflictRows = some rows ∧ n ∈ rows

namespace ProblemSummary

variable {s t : ProblemSummary}

/-! ### Rows in ascending order -/

theorem mem_insertRow : m ∈ insertRow n rows ↔ m = n ∨ m ∈ rows := by
  induction rows with
  | nil => simp [insertRow]
  | cons k rows ih =>
      rw [insertRow]
      split
      · exact List.mem_cons
      · split
        next h => simp [h]
        next => rw [List.mem_cons, ih, List.mem_cons, or_left_comm]

theorem insertRow_pairwise (h : rows.Pairwise (· < ·)) :
    (insertRow n rows).Pairwise (· < ·) := by
  induction rows with
  | nil => exact List.pairwise_singleton _ _
  | cons k rows ih =>
      obtain ⟨hk, hrows⟩ := List.pairwise_cons.mp h
      rw [insertRow]
      split
      next hlt =>
        refine List.pairwise_cons.mpr ⟨fun m hm => ?_, h⟩
        obtain rfl | hm := List.mem_cons.mp hm
        · exact hlt
        · exact Nat.lt_trans hlt (hk m hm)
      next hge =>
        split
        next => exact h
        next hne =>
          refine List.pairwise_cons.mpr ⟨fun m hm => ?_, ih hrows⟩
          obtain rfl | hm := mem_insertRow.mp hm
          · omega
          · exact hk m hm

theorem mem_ascending : n ∈ ascending rows ↔ n ∈ rows := by
  induction rows with
  | nil => rfl
  | cons m rows ih =>
      change n ∈ insertRow m (ascending rows) ↔ n ∈ m :: rows
      rw [mem_insertRow, ih, List.mem_cons]

theorem ascending_pairwise (rows : List Nat) : (ascending rows).Pairwise (· < ·) := by
  induction rows with
  | nil => exact .nil
  | cons m rows ih => exact insertRow_pairwise ih

/-- The numbers of an ascending list determine it. -/
theorem eq_of_ascending (h : rows.Pairwise (· < ·)) (h' : rows'.Pairwise (· < ·))
    (hmem : ∀ n, n ∈ rows ↔ n ∈ rows') : rows = rows' := by
  have hperm : rows.Perm rows' :=
    (List.perm_ext_iff_of_nodup (h.imp Nat.ne_of_lt) (h'.imp Nat.ne_of_lt)).mpr hmem
  exact hperm.eq_of_pairwise (fun a b _ _ hab hba => absurd hba (Nat.lt_asymm hab)) h h'

theorem mem_rowsOf : n ∈ rowsOf v ↔ v.Concerns n := by
  rw [rowsOf, List.mem_cons, Violation.Concerns]
  cases v.isUniqueness <;> cases v.conflictRows <;> simp

/-! ### One summary for each problem and column -/

/-- A violation is one of those that a summary sums up. -/
def Covers (s : ProblemSummary) (v : Violation) : Prop :=
  v.problem = s.problem ∧ v.columnName = s.fieldName

/-- The columns of the violations with a problem. -/
def columnsWith (vs : List Violation) (problem : String) : List String :=
  (vs.filter (·.problem == problem)).map (·.columnName)

/-- The problem of a summary occurs first before that of another one, or it is the same problem and
the column occurs first under it before the other column. -/
def Precedes (vs : List Violation) (s t : ProblemSummary) : Prop :=
  (vs.map (·.problem)).idxOf s.problem < (vs.map (·.problem)).idxOf t.problem ∨
    s.problem = t.problem ∧
      (columnsWith vs s.problem).idxOf s.fieldName < (columnsWith vs s.problem).idxOf t.fieldName

theorem Precedes.ne (h : Precedes vs s t) : (s.problem, s.fieldName) ≠ (t.problem, t.fieldName) := by
  intro he
  obtain ⟨hp, hc⟩ := Prod.mk.inj he
  rw [Precedes, hp, hc] at h
  exact h.elim (Nat.lt_irrefl _) fun h => Nat.lt_irrefl _ h.2

/-- The summaries of the violations with a problem. -/
def under (p : String × List Violation) : List ProblemSummary :=
  (groupBy (·.columnName) p.2).map fun c => ⟨p.1, c.1, ascending (c.2.flatMap rowsOf)⟩

theorem mem_under {p : String × List Violation} : s ∈ under p ↔ s.problem = p.1 ∧
    s.fieldName ∈ p.2.map (·.columnName) ∧
      s.rowNumbers = ascending ((p.2.filter (·.columnName == s.fieldName)).flatMap rowsOf) := by
  simp only [under, List.mem_map (f := fun c : String × List Violation => ProblemSummary.mk _ _ _)]
  constructor
  · rintro ⟨⟨c, g⟩, hg, rfl⟩
    obtain ⟨hc, rfl⟩ := mem_groupBy.mp hg
    exact ⟨rfl, hc, rfl⟩
  · rintro ⟨hp, hc, hrows⟩
    refine ⟨(s.fieldName, p.2.filter (·.columnName == s.fieldName)), mem_groupBy.mpr ⟨hc, rfl⟩, ?_⟩
    rw [← hp, ← hrows]

theorem mem_ofViolations : s ∈ ofViolations vs ↔ (∃ v ∈ vs, s.Covers v) ∧
    s.rowNumbers = ascending ((vs.filter fun v =>
      v.columnName == s.fieldName && v.problem == s.problem).flatMap rowsOf) := by
  rw [ofViolations, List.mem_flatMap, ← List.filter_filter]
  constructor
  · rintro ⟨⟨p, g⟩, hg, hs⟩
    obtain ⟨-, rfl⟩ := mem_groupBy.mp hg
    obtain ⟨rfl, hc, hrows⟩ := mem_under.mp hs
    obtain ⟨v, hv, hname⟩ := List.mem_map.mp hc
    obtain ⟨hv, hproblem⟩ := List.mem_filter.mp hv
    exact ⟨⟨v, hv, eq_of_beq hproblem, hname⟩, hrows⟩
  · rintro ⟨⟨v, hv, hproblem, hname⟩, hrows⟩
    refine ⟨(s.problem, vs.filter (·.problem == s.problem)),
      mem_groupBy.mpr ⟨hproblem ▸ List.mem_map_of_mem hv, rfl⟩, mem_under.mpr ⟨rfl, ?_, hrows⟩⟩
    rw [← hname]
    exact List.mem_map_of_mem (List.mem_filter.mpr ⟨hv, beq_iff_eq.mpr hproblem⟩)

/-- Every violation is summed up. -/
theorem exists_covering (hv : v ∈ vs) : ∃ s ∈ ofViolations vs, s.Covers v :=
  ⟨⟨v.problem, v.columnName, ascending ((vs.filter fun w =>
      w.columnName == v.columnName && w.problem == v.problem).flatMap rowsOf)⟩,
    mem_ofViolations.mpr ⟨⟨v, hv, rfl, rfl⟩, rfl⟩, rfl, rfl⟩

theorem ofViolations_pairwise (vs : List Violation) : (ofViolations vs).Pairwise (Precedes vs) := by
  refine List.pairwise_flatMap.mpr ⟨fun ⟨p, g⟩ hg => ?_, ?_⟩
  · obtain ⟨-, rfl⟩ := mem_groupBy.mp hg
    have hcolumns := keys_groupBy_pairwise (·.columnName) (vs.filter (·.problem == p))
    rw [List.pairwise_map] at hcolumns ⊢
    exact hcolumns.imp fun h => Or.inr ⟨rfl, h⟩
  · have hproblems := keys_groupBy_pairwise (·.problem) vs
    rw [List.pairwise_map] at hproblems
    refine hproblems.imp fun h s hs t ht => Or.inl ?_
    rwa [(mem_under.mp hs).1, (mem_under.mp ht).1]

theorem mem_rowNumbers (hs : s ∈ ofViolations vs) :
    n ∈ s.rowNumbers ↔ ∃ v ∈ vs, s.Covers v ∧ v.Concerns n := by
  rw [(mem_ofViolations.mp hs).2, mem_ascending, List.mem_flatMap]
  simp only [List.mem_filter, mem_rowsOf, Bool.and_eq_true, beq_iff_eq, Covers, and_assoc]
  exact exists_congr fun v => and_congr_right fun _ => and_left_comm

theorem rowNumbers_pairwise (hs : s ∈ ofViolations vs) : s.rowNumbers.Pairwise (· < ·) := by
  rw [(mem_ofViolations.mp hs).2]
  exact ascending_pairwise _

theorem pairs_nodup (vs : List Violation) :
    ((ofViolations vs).map fun s => (s.problem, s.fieldName)).Nodup := by
  rw [List.Nodup, List.pairwise_map]
  exact (ofViolations_pairwise vs).imp Precedes.ne

/-- What a summary says does not depend on the order of the violations. -/
theorem mem_of_perm (h : vs.Perm ws) (hs : s ∈ ofViolations vs) : s ∈ ofViolations ws := by
  have hsorted := rowNumbers_pairwise hs
  obtain ⟨⟨v, hv, hcovers⟩, -⟩ := mem_ofViolations.mp hs
  refine mem_ofViolations.mpr ⟨⟨v, h.mem_iff.mp hv, hcovers⟩, ?_⟩
  refine eq_of_ascending hsorted (ascending_pairwise _) fun n => ?_
  rw [(mem_ofViolations.mp hs).2, mem_ascending, mem_ascending]
  exact ((h.filter _).flatMap_right _).mem_iff

/-- There is exactly one summary for each problem and column that occur together, by the first
occurrence of the problem and under it by that of the column. Its rows ascend and are those that
the violations with the problem in the column concern. The violations in another order have the
same summaries. -/
theorem violations_summed_up (vs : List Violation) :
    (∀ p c, (∃ s ∈ ofViolations vs, s.problem = p ∧ s.fieldName = c) ↔
        ∃ v ∈ vs, v.problem = p ∧ v.columnName = c) ∧
      ((ofViolations vs).map fun s => (s.problem, s.fieldName)).Nodup ∧
      (ofViolations vs).Pairwise (Precedes vs) ∧
      (∀ s ∈ ofViolations vs, s.rowNumbers.Pairwise (· < ·) ∧
        ∀ n, n ∈ s.rowNumbers ↔ ∃ v ∈ vs, s.Covers v ∧ v.Concerns n) ∧
      ∀ ws, vs.Perm ws → (ofViolations vs).Perm (ofViolations ws) := by
  have hnodup (us : List Violation) : (ofViolations us).Nodup :=
    List.Nodup.of_map _ (pairs_nodup us)
  refine ⟨fun p c => ⟨?_, ?_⟩, pairs_nodup vs, ofViolations_pairwise vs,
    fun s hs => ⟨rowNumbers_pairwise hs, fun n => mem_rowNumbers hs⟩, fun ws h => ?_⟩
  · rintro ⟨s, hs, rfl, rfl⟩
    exact (mem_ofViolations.mp hs).1
  · rintro ⟨v, hv, rfl, rfl⟩
    obtain ⟨s, hs, hp, hc⟩ := exists_covering hv
    exact ⟨s, hs, hp.symm, hc.symm⟩
  · exact (List.perm_ext_iff_of_nodup (hnodup vs) (hnodup ws)).mpr fun s =>
      ⟨mem_of_perm h, mem_of_perm h.symm⟩

/-- A text that two rows hold, and one that is too short in each of two columns. -/
def shortAndTwice : List Violation :=
  [⟨"r3", 3, "Name", "ab", "not unique", [uniquenessCode], "", some [1]⟩,
    ⟨"r2", 2, "Name", "a", "too short", ["stringMin"], "", none⟩,
    ⟨"r1", 1, "Name", "ab", "not unique", [uniquenessCode], "", some [3]⟩,
    ⟨"r1", 1, "City", "b", "too short", ["stringMin"], "", none⟩]

theorem shortAndTwice_summed_up :
    ofViolations shortAndTwice = [⟨"not unique", "Name", [1, 3]⟩, ⟨"too short", "Name", [2]⟩,
        ⟨"too short", "City", [1]⟩] ∧
      (∃ v ∈ shortAndTwice, Covers ⟨"not unique", "Name", [1, 3]⟩ v ∧ v.Concerns 3) ∧
      (ofViolations shortAndTwice).Perm (ofViolations shortAndTwice.reverse) := by
  obtain ⟨-, -, -, hrows, hperm⟩ := violations_summed_up shortAndTwice
  have hs : ⟨"not unique", "Name", [1, 3]⟩ ∈ ofViolations shortAndTwice := by decide
  exact ⟨by decide, ((hrows _ hs).2 3).mp (by decide), hperm _ (List.reverse_perm _).symm⟩

end ProblemSummary

end TableAudit
