import Mathlib.Data.List.Forall2
import TableAudit.Proofs.Report.Grouping

/-!
# Failures of one cell

All failures of a row of a column are merged into one violation. It is that of the cell which the
first of them names, with every code and every message of theirs once, in order of first
occurrence. So the violations say nothing of how the errors of a cell are told: all in one failure,
or over several with failures of other rows in between.
-/

namespace TableAudit

variable {α κ : Type} {ts : String} {c d : ColumnFailures} {v w : Violation}
variable {vs ws : List Violation} {fs gs : List Failure} {n : Nat}

/-! ### Members in order of first occurrence -/

/-- The second list has the members of the first, each once, in order of first occurrence. -/
structure EachOnce [BEq α] (as bs : List α) : Prop where
  mem_iff : ∀ a, a ∈ bs ↔ a ∈ as
  ordered : bs.Pairwise fun a b => as.idxOf a < as.idxOf b

namespace EachOnce

variable [BEq α] [LawfulBEq α] {as bs cs : List α}

omit [LawfulBEq α] in
theorem nodup (h : EachOnce as bs) : bs.Nodup := by
  refine h.ordered.imp fun {a b} hlt heq => ?_
  subst heq
  exact Nat.lt_irrefl _ hlt

omit [LawfulBEq α] in
/-- There is only one such list. -/
theorem unique (h : EachOnce as bs) (h' : EachOnce as cs) : bs = cs := by
  have hperm : bs.Perm cs := (List.perm_ext_iff_of_nodup h.nodup h'.nodup).mpr fun a =>
    (h.mem_iff a).trans (h'.mem_iff a).symm
  exact hperm.eq_of_pairwise (fun a b _ _ hab hba => absurd hba (Nat.lt_asymm hab))
    h.ordered h'.ordered

end EachOnce

theorem eachOnce_firstOccurrences (ss : List String) : EachOnce ss (firstOccurrences ss) where
  mem_iff _ := mem_firstOccurrences
  ordered := by
    induction ss with
    | nil => exact .nil
    | cons s ss ih =>
        have hlater {t : String} (ht : t ∈ (firstOccurrences ss).filter (· ≠ s)) :
            (s :: ss).idxOf t = ss.idxOf t + 1 :=
          List.idxOf_cons_ne ss (Ne.symm (of_decide_eq_true (List.mem_filter.mp ht).2))
        refine List.pairwise_cons.mpr ⟨fun t ht => ?_, ?_⟩
        · rw [List.idxOf_cons_self, hlater ht]
          exact Nat.succ_pos _
        · refine (ih.filter _).imp_of_mem fun ht ht' hlt => ?_
          rw [hlater ht, hlater ht']
          exact Nat.succ_lt_succ hlt

theorem eachOnce_keys [BEq κ] [LawfulBEq κ] (key : α → κ) (as : List α) :
    EachOnce (as.map key) ((groupBy key as).map (·.1)) where
  mem_iff _ := mem_keys_groupBy
  ordered := keys_groupBy_pairwise key as

/-! ### What the failures say of a row -/

/-- The failures of a row. -/
def failuresAt (fs : List Failure) (n : Nat) : List Failure :=
  fs.filter (·.rowNumber == n)

/-- Everything that is wrong with the cell of a row. -/
def errorsAt (fs : List Failure) (n : Nat) : List CheckError :=
  (failuresAt fs n).flatMap (·.errors)

/-- The record and the text of a row's cell, from the first failure. -/
def cellAt? (fs : List Failure) (n : Nat) : Option (String × String) :=
  (failuresAt fs n).head?.map fun f => (f.recordId, f.cellValue)

/-- The wording of messages together, which is never empty. -/
def joined (messages : List String) : String :=
  let problem := Text.joinWith ", " messages
  if problem = "" then "unknown" else problem

/-- A violation is what the failures of its row come to. -/
structure Violation.Merges (ts : String) (c : ColumnFailures) (v : Violation) : Prop where
  column : v.columnName = c.columnName
  time : v.timestamp = ts
  cell : cellAt? c.failures v.rowNumber = some (v.recordId, v.cellValue)
  codes : EachOnce ((errorsAt c.failures v.rowNumber).map (·.code)) v.errorTypes
  problem : ∃ messages, EachOnce ((errorsAt c.failures v.rowNumber).map (·.message)) messages ∧
    v.problem = joined messages
  conflicts : v.conflictRows.isSome = true ↔
    uniquenessCode ∈ v.errorTypes ∧ Text.trim v.cellValue ≠ ""
  others : ∀ rows, v.conflictRows = some rows →
    rows = (c.index.rows (Text.trim v.cellValue)).filter (· ≠ v.rowNumber)

/-- Violations are those of a column: one for each row that fails, in order of first failure. -/
structure ColumnFailures.Yields (ts : String) (c : ColumnFailures) (vs : List Violation) :
    Prop where
  rows : EachOnce (c.failures.map (·.rowNumber)) (vs.map (·.rowNumber))
  merged : ∀ v ∈ vs, v.Merges ts c

theorem exists_failuresAt (h : n ∈ fs.map (·.rowNumber)) :
    ∃ f rest, failuresAt fs n = f :: rest := by
  obtain ⟨f, hf, hn⟩ := List.mem_map.mp h
  have hmem : f ∈ failuresAt fs n := List.mem_filter.mpr ⟨hf, beq_iff_eq.mpr hn⟩
  exact List.exists_cons_of_ne_nil (List.ne_nil_of_mem hmem)

theorem merges_ofFailures (ts : String) (h : n ∈ c.failures.map (·.rowNumber)) :
    (Violation.ofFailures c ts n (failuresAt c.failures n)).Merges ts c where
  column := rfl
  time := rfl
  cell := by
    obtain ⟨f, rest, hfs⟩ := exists_failuresAt h
    simp [Violation.ofFailures, cellAt?, hfs]
  codes := eachOnce_firstOccurrences _
  problem := ⟨_, eachOnce_firstOccurrences _, rfl⟩
  conflicts := by
    simp only [Violation.ofFailures, conflictRows?]
    split
    next h => simpa using h
    next h => simpa using h
  others rows := by
    simp only [Violation.ofFailures, conflictRows?]
    split
    next => exact fun hrows => (Option.some.inj hrows).symm
    next =>
      intro hrows
      cases hrows

theorem ColumnFailures.yields_violations (ts : String) (c : ColumnFailures) :
    c.Yields ts (c.violations ts) where
  rows := by
    rw [ColumnFailures.violations, List.map_map]
    exact eachOnce_keys (·.rowNumber) c.failures
  merged v hv := by
    obtain ⟨⟨n, g⟩, hg, rfl⟩ := List.mem_map.mp hv
    obtain ⟨hn, rfl⟩ := mem_groupBy.mp hg
    exact merges_ofFailures ts hn

/-! ### The failures determine the violations -/

theorem Violation.Merges.unique (hv : v.Merges ts c) (hw : w.Merges ts c)
    (hrow : v.rowNumber = w.rowNumber) : v = w := by
  obtain ⟨recordId, rowNumber, columnName, cellValue, problem, errorTypes, timestamp,
    conflicts⟩ := v
  obtain ⟨recordId', rowNumber', columnName', cellValue', problem', errorTypes', timestamp',
    conflicts'⟩ := w
  obtain ⟨rfl, rfl, hcell, hcodes, ⟨ms, hms, rfl⟩, hsome, hothers⟩ := hv
  obtain ⟨rfl, rfl, hcell', hcodes', ⟨ms', hms', rfl⟩, hsome', hothers'⟩ := hw
  dsimp only at *
  subst hrow
  obtain ⟨rfl, rfl⟩ := Prod.mk.inj (Option.some.inj (hcell.symm.trans hcell'))
  obtain rfl := hcodes.unique hcodes'
  obtain rfl := hms.unique hms'
  have hconflicts : conflicts = conflicts' := by
    have hiff := hsome.trans hsome'.symm
    cases conflicts with
    | none =>
        cases conflicts' with
        | none => rfl
        | some rows => cases hiff.mpr rfl
    | some rows =>
        cases conflicts' with
        | none => cases hiff.mp rfl
        | some rows' => rw [hothers rows rfl, hothers' rows' rfl]
  rw [hconflicts]

theorem ColumnFailures.Yields.unique (h : c.Yields ts vs) (h' : c.Yields ts ws) : vs = ws := by
  have hrows : vs.map (·.rowNumber) = ws.map (·.rowNumber) := h.rows.unique h'.rows
  have hlength : vs.length = ws.length := by
    simpa only [List.length_map] using congrArg List.length hrows
  refine List.ext_getElem hlength fun i hi hi' => ?_
  refine (h.merged _ (List.getElem_mem hi)).unique (h'.merged _ (List.getElem_mem hi')) ?_
  have hrow := congrArg (fun rows : List Nat => rows[i]?) hrows
  simpa [hi, hi'] using hrow

/-! ### Errors told in another way -/

/-- Failures tell of the same cells: the same rows fail, first in the same order, and of every row
they name the same cell and the same errors in the same order, in however many failures. -/
structure SameCells (fs gs : List Failure) : Prop where
  rows : ∃ rows, EachOnce (fs.map (·.rowNumber)) rows ∧ EachOnce (gs.map (·.rowNumber)) rows
  cell : ∀ n, cellAt? fs n = cellAt? gs n
  errors : ∀ n, errorsAt fs n = errorsAt gs n

/-- The failures of two columns tell of the same cells of one column. -/
structure ColumnFailures.SameCells (c d : ColumnFailures) : Prop where
  name : c.columnName = d.columnName
  index : c.index = d.index
  failures : TableAudit.SameCells c.failures d.failures

theorem Violation.Merges.transfer (hv : v.Merges ts c) (h : c.SameCells d) : v.Merges ts d where
  column := hv.column.trans h.name
  time := hv.time
  cell := (h.failures.cell _).symm.trans hv.cell
  codes := h.failures.errors _ ▸ hv.codes
  problem := h.failures.errors _ ▸ hv.problem
  conflicts := hv.conflicts
  others rows hrows := h.index ▸ hv.others rows hrows

theorem ColumnFailures.SameCells.violations_eq (h : c.SameCells d) (ts : String) :
    c.violations ts = d.violations ts := by
  obtain ⟨rows, hc, hd⟩ := h.failures.rows
  have hyields := c.yields_violations ts
  refine ColumnFailures.Yields.unique ⟨?_, fun v hv => (hyields.merged v hv).transfer h⟩
    (d.yields_violations ts)
  rwa [hyields.rows.unique hc]

/-- The violations are those of the columns in turn: in each there is one for every row that fails,
in order of first failure, and it merges the failures of the row. Columns whose failures tell of the
same cells have the same violations. -/
theorem failures_merged (ts : String) (columns : List ColumnFailures) :
    (∃ found, List.Forall₂ (ColumnFailures.Yields ts) columns found ∧
        aggregate ts columns = found.flatten) ∧
      ∀ others, List.Forall₂ ColumnFailures.SameCells columns others →
        aggregate ts columns = aggregate ts others := by
  constructor
  · refine ⟨columns.map (·.violations ts), ?_, by rw [aggregate, List.flatMap_def]⟩
    rw [List.forall₂_map_right_iff, List.forall₂_same]
    exact fun c _ => c.yields_violations ts
  · intro others h
    induction h with
    | nil => rfl
    | @cons c d columns others hcd _ ih =>
        rw [aggregate, aggregate, List.flatMap_cons, List.flatMap_cons, hcd.violations_eq ts]
        exact congrArg _ ih

/-- An error with a code and a message. -/
def plainError (code message : String) : CheckError :=
  ⟨code, message, "Name", .null, .null⟩

/-- Two rows fail, and each cell is told of at once. -/
def toldAtOnce : ColumnFailures :=
  ⟨"Name", [("ab", [1, 2])],
    [⟨2, "r2", " ab", [plainError "stringMin" "too short", plainError uniquenessCode "not unique"]⟩,
      ⟨1, "r1", "ab", [plainError uniquenessCode "not unique"]⟩]⟩

/-- The same errors, those of the second row in two failures with the first row in between. -/
def toldInTurn : ColumnFailures :=
  { toldAtOnce with
    failures := [⟨2, "r2", " ab", [plainError "stringMin" "too short"]⟩,
      ⟨1, "r1", "ab", [plainError uniquenessCode "not unique"]⟩,
      ⟨2, "r2", " ab", [plainError uniquenessCode "not unique"]⟩] }

theorem toldInTurn_sameCells : toldAtOnce.SameCells toldInTurn where
  name := rfl
  index := rfl
  failures := by
    refine ⟨⟨[2, 1], eachOnce_keys (·.rowNumber) toldAtOnce.failures,
      eachOnce_keys (·.rowNumber) toldInTurn.failures⟩, fun n => ?_, fun n => ?_⟩
    all_goals
      by_cases h2 : 2 = n
      · subst h2
        rfl
      · by_cases h1 : 1 = n
        · subst h1
          rfl
        · simp [toldAtOnce, toldInTurn, cellAt?, errorsAt, failuresAt, h1, h2]

theorem toldInTurn_merged :
    aggregate "" [toldAtOnce] = aggregate "" [toldInTurn] ∧
      aggregate "" [toldInTurn] =
        [⟨"r2", 2, "Name", " ab", "too short, not unique", ["stringMin", uniquenessCode], "",
            some [1]⟩,
          ⟨"r1", 1, "Name", "ab", "not unique", [uniquenessCode], "", some [2]⟩] :=
  ⟨(failures_merged "" [toldAtOnce]).2 _ (.cons toldInTurn_sameCells .nil), by decide +kernel⟩

/-- A failure with a message without text, such as an empty wording gives. -/
def blankMessage : ColumnFailures :=
  ⟨"Name", [], [⟨1, "r1", "x", [plainError "stringMin" ""]⟩]⟩

/-- Its violation does not show the joined messages. -/
theorem blankMessage_renamed : ∃ v ∈ aggregate "" [blankMessage], ∀ messages,
    EachOnce ((errorsAt blankMessage.failures v.rowNumber).map (·.message)) messages →
      v.problem ≠ Text.joinWith ", " messages := by
  refine ⟨⟨"r1", 1, "Name", "x", "unknown", ["stringMin"], "", none⟩, by decide +kernel,
    fun messages h => ?_⟩
  obtain rfl := h.unique (eachOnce_firstOccurrences _)
  decide +kernel

end TableAudit
