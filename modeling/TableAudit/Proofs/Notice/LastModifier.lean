import TableAudit.Notice.Basic
import TableAudit.Proofs.Number.Exact

/-!
# Who is mentioned in a notice

A notice mentions the person who last changed one of the failing rows. Rows without a person are
passed over, a row without a time counts as changed at time zero, and of rows that were changed at
the same time the first one counts. Of the violations only the records matter that have one.
-/

namespace TableAudit.Number

variable {a b : Number}

/-- The place of a number in the order of numbers: its value, or one of the two ends. -/
def level : Number → WithBot (WithTop ℚ)
  | .float (.infinity true) => ⊥
  | .float (.infinity false) => ⊤
  | n => ((n.value : WithTop ℚ) : WithBot (WithTop ℚ))

theorem level_of_isFinite (h : a.IsFinite) :
    a.level = ((a.value : WithTop ℚ) : WithBot (WithTop ℚ)) := by
  match a, h with
  | .int n, _ => rfl
  | .float (.finite s m e), _ => rfl

/-- A number that is not undefined is finite or one of the two ends. -/
theorem isFinite_or_infinity (h : a ≠ .float .nan) :
    a.IsFinite ∨ ∃ negative, a = .float (.infinity negative) := by
  match a, h with
  | .int n, _ => exact Or.inl trivial
  | .float (.finite s m e), _ => exact Or.inl rfl
  | .float (.infinity negative), _ => exact Or.inr ⟨negative, rfl⟩
  | .float .nan, h => exact absurd rfl h

theorem level_bounds (h : a.IsFinite) : ⊥ < a.level ∧ a.level < ⊤ := by
  rw [level_of_isFinite h]
  exact ⟨WithBot.bot_lt_coe _, WithBot.coe_lt_coe.mpr (WithTop.coe_lt_top _)⟩

theorem lt_infinity (h : a.IsFinite) (negative : Bool) :
    a.lt (.float (.infinity negative)) = !negative := by
  match a, h with
  | .int n, _ => cases negative <;> rfl
  | .float (.finite s m e), _ => cases negative <;> rfl

theorem infinity_lt (h : b.IsFinite) (negative : Bool) :
    (Number.float (.infinity negative)).lt b = negative := by
  match b, h with
  | .int n, _ => cases negative <;> rfl
  | .float (.finite s m e), _ => cases negative <;> rfl

/-- Numbers that are not undefined are ordered by their places. -/
theorem lt_iff_level (ha : a ≠ .float .nan) (hb : b ≠ .float .nan) :
    a.lt b = true ↔ a.level < b.level := by
  obtain hfa | ⟨s, rfl⟩ := isFinite_or_infinity ha
  · obtain hfb | ⟨t, rfl⟩ := isFinite_or_infinity hb
    · rw [lt_iff hfa hfb, level_of_isFinite hfa, level_of_isFinite hfb, WithBot.coe_lt_coe,
        WithTop.coe_lt_coe]
    · rw [lt_infinity hfa]
      cases t with
      | false => exact iff_of_true rfl (level_bounds hfa).2
      | true => exact iff_of_false Bool.false_ne_true (not_lt.mpr bot_le)
  · obtain hfb | ⟨t, rfl⟩ := isFinite_or_infinity hb
    · rw [infinity_lt hfb]
      cases s with
      | false => exact iff_of_false Bool.false_ne_true (not_lt.mpr le_top)
      | true => exact iff_of_true rfl (level_bounds hfb).1
    · -- of two ends only the lower one is less than the upper one
      cases s with
      | false => exact iff_of_false (by cases t <;> decide) (not_lt.mpr le_top)
      | true =>
          cases t with
          | false => exact iff_of_true (by decide) (bot_lt_top)
          | true => exact iff_of_false (by decide) (lt_irrefl _)

end TableAudit.Number

namespace TableAudit.Notice

variable {vs : List Violation} {rows : List Row} {r b : Row}

/-- Whether a row counts for the mention: it has a violation, and the person who changed it last is
known. -/
def Mentionable (vs : List Violation) (r : Row) : Prop :=
  (∃ v ∈ vs, v.recordId = r.recordId) ∧ ∃ who, r.lastModifiedBy = some who ∧ who ≠ ""

/-- Whether a row was changed before another one. -/
def Before (x r : Row) : Prop :=
  (changeTime x).lt (changeTime r) = true

/-- The first of the rows that count and that were changed last: those that count in front of it were
changed before it, and those behind it were not changed after it. -/
structure FirstLatest (vs : List Violation) (rows : List Row) (r : Row) : Prop where
  counts : Mentionable vs r
  place : ∃ front back, rows = front ++ r :: back ∧ (∀ x ∈ front, Mentionable vs x → Before x r) ∧
    ∀ x ∈ back, Mentionable vs x → ¬ Before r x

/-- Whether the time of a row's change is known or missing, but not undefined. -/
def IsTimed (r : Row) : Prop :=
  r.lastModifiedTime ≠ some (.float .nan)

/-! ### The order of times -/

theorem IsTimed.changeTime_ne (h : IsTimed r) : changeTime r ≠ .float .nan := by
  rw [changeTime]
  cases htime : r.lastModifiedTime with
  | none => exact nofun
  | some n =>
      intro hn
      exact h (htime.trans (congrArg some hn))

theorem before_iff {x : Row} (hx : IsTimed x) (hr : IsTimed r) :
    Before x r ↔ (changeTime x).level < (changeTime r).level :=
  Number.lt_iff_level hx.changeTime_ne hr.changeTime_ne

/-! ### The row that is found -/

theorem counts_iff : counts (vs.map (·.recordId)) r = true ↔ Mentionable vs r := by
  have hperson : (r.lastModifiedBy.getD "" ≠ "") ↔ ∃ who, r.lastModifiedBy = some who ∧ who ≠ "" := by
    cases r.lastModifiedBy <;> simp
  simp only [counts, Bool.and_eq_true, List.contains_iff_mem, List.mem_map, decide_eq_true_eq,
    hperson]
  exact Iff.rfl

/-- The row whose person is mentioned. -/
def mentioned (vs : List Violation) (rows : List Row) : Option Row :=
  (rows.filter (counts (vs.map (·.recordId)))).foldl later none

theorem mentioned_concat (rows : List Row) (r : Row) :
    mentioned vs (rows ++ [r]) =
      if counts (vs.map (·.recordId)) r then later (mentioned vs rows) r else mentioned vs rows := by
  rw [mentioned, List.filter_append, List.foldl_append]
  by_cases hr : counts (vs.map (·.recordId)) r = true
  · rw [if_pos hr, List.filter_cons_of_pos hr]
    rfl
  · rw [if_neg hr, List.filter_cons_of_neg hr]
    rfl

/-- What is known of a row after some rows: there is none if none of them counts, and otherwise it is
the first of the latest ones. -/
def Found (vs : List Violation) (rows : List Row) : Option Row → Prop
  | none => ∀ x ∈ rows, ¬ Mentionable vs x
  | some b => FirstLatest vs rows b

/-- A row that does not count changes nothing. -/
theorem Found.skip {best : Option Row} (h : Found vs rows best) (hr : ¬ Mentionable vs r) :
    Found vs (rows ++ [r]) best := by
  cases best with
  | none =>
      intro x hx
      obtain hx | hx := List.mem_append.mp hx
      · exact h x hx
      · rwa [List.mem_singleton.mp hx]
  | some b =>
      obtain ⟨hb, front, back, rfl, hfront, hback⟩ := h
      refine ⟨hb, front, back ++ [r], by rw [List.append_assoc, List.cons_append], hfront, ?_⟩
      intro x hx hcounts
      obtain hx | hx := List.mem_append.mp hx
      · exact hback x hx hcounts
      · exact absurd (List.mem_singleton.mp hx ▸ hcounts) hr

/-- A row that counts takes the place of one that was changed before it, and of none else. -/
theorem Found.take {best : Option Row} (ht : ∀ x ∈ rows, IsTimed x) (hr : IsTimed r)
    (h : Found vs rows best) (hcounts : Mentionable vs r) :
    Found vs (rows ++ [r]) (later best r) := by
  cases best with
  | none =>
      refine ⟨hcounts, rows, [], rfl, ?_, List.forall_mem_nil _⟩
      intro x hx hx'
      exact absurd hx' (h x hx)
  | some b =>
      obtain ⟨hb, front, back, rfl, hfront, hback⟩ := h
      rw [List.forall_mem_append, List.forall_mem_cons] at ht
      obtain ⟨htfront, htb, htback⟩ := ht
      by_cases hlater : Before b r
      · have hbest : later (some b) r = some r := if_pos hlater
        rw [hbest]
        refine ⟨hcounts, front ++ b :: back, [], rfl, ?_, List.forall_mem_nil _⟩
        rw [before_iff htb hr] at hlater
        intro x hx hx'
        obtain hx | hx := List.mem_append.mp hx
        · rw [before_iff (htfront x hx) hr]
          exact lt_trans ((before_iff (htfront x hx) htb).mp (hfront x hx hx')) hlater
        · obtain rfl | hx := List.mem_cons.mp hx
          · exact (before_iff htb hr).mpr hlater
          · rw [before_iff (htback x hx) hr]
            have hle := not_lt.mp fun hlt => hback x hx hx' ((before_iff htb (htback x hx)).mpr hlt)
            exact lt_of_le_of_lt hle hlater
      · have hbest : later (some b) r = some b := if_neg hlater
        rw [hbest]
        refine ⟨hb, front, back ++ [r], by rw [List.append_assoc, List.cons_append], hfront, ?_⟩
        intro x hx hx'
        obtain hx | hx := List.mem_append.mp hx
        · exact hback x hx hx'
        · rwa [List.mem_singleton.mp hx]

/-- After any rows the row that is found is the first of the latest ones that count. -/
theorem found_mentioned (ht : ∀ x ∈ rows, IsTimed x) : Found vs rows (mentioned vs rows) := by
  induction rows using List.reverseRecOn with
  | nil => exact List.forall_mem_nil _
  | append_singleton rows r ih =>
      rw [List.forall_mem_append, List.forall_mem_singleton] at ht
      rw [mentioned_concat]
      split
      next hr => exact (ih ht.1).take ht.1 ht.2 (counts_iff.mp hr)
      next hr => exact (ih ht.1).skip fun hcounts => hr (counts_iff.mpr hcounts)

/-- There is only one row that is the first of the latest ones. -/
theorem FirstLatest.unique (h : FirstLatest vs rows r) (h' : FirstLatest vs rows b) : r = b := by
  -- of two different ones, the second would have to be later than the first and not later
  have hone {r b : Row} {mid front back back' : List Row} (hr : Mentionable vs r)
      (hb : Mentionable vs b) (hcut : r :: back = mid ++ b :: back')
      (hback : ∀ x ∈ back, Mentionable vs x → ¬ Before r x)
      (hfront : ∀ x ∈ front ++ mid, Mentionable vs x → Before x b) : r = b := by
    cases mid with
    | nil => exact (List.cons.inj hcut).1
    | cons y mid =>
        obtain ⟨rfl, rfl⟩ := List.cons.inj hcut
        have hbefore : Before r b := hfront r (by simp) hr
        exact absurd hbefore (hback b (by simp) hb)
  obtain ⟨hr, front, back, rfl, hfront, hback⟩ := h
  obtain ⟨hb, front', back', hcut, hfront', hback'⟩ := h'
  obtain ⟨mid, rfl, hmid⟩ | ⟨mid, rfl, hmid⟩ := List.append_eq_append_iff.mp hcut
  · exact hone hr hb hmid hback hfront'
  · exact (hone hb hr hmid hback' hfront).symm

theorem lastModifier?_eq (vs : List Violation) (rows : List Row) :
    lastModifier? rows vs = (mentioned vs rows).bind (·.lastModifiedBy) :=
  rfl

/-- Violations of the same records leave the same rows to choose from. -/
theorem mentioned_congr {ws : List Violation}
    (h : ∀ id, (∃ v ∈ vs, v.recordId = id) ↔ ∃ w ∈ ws, w.recordId = id) (rows : List Row) :
    mentioned vs rows = mentioned ws rows := by
  have hcounts : counts (vs.map (·.recordId)) = counts (ws.map (·.recordId)) := by
    funext x
    rw [Bool.eq_iff_iff, counts_iff, counts_iff, Mentionable, Mentionable, h]
  rw [mentioned, mentioned, hcounts]

/-- No one is mentioned just if no row counts. Otherwise it is the person who changed the first of
the latest rows that count. It does not matter what the violations say beside their records. -/
theorem last_modifier_found (vs : List Violation) (ht : ∀ r ∈ rows, IsTimed r) :
    (lastModifier? rows vs = none ↔ ∀ r ∈ rows, ¬ Mentionable vs r) ∧
      (∀ who, lastModifier? rows vs = some who ↔
        ∃ r, FirstLatest vs rows r ∧ r.lastModifiedBy = some who) ∧
      ∀ ws : List Violation, (∀ id, (∃ v ∈ vs, v.recordId = id) ↔ ∃ w ∈ ws, w.recordId = id) →
        lastModifier? rows vs = lastModifier? rows ws := by
  have hfound : Found vs rows (mentioned vs rows) := found_mentioned ht
  refine ⟨?_, fun who => ?_, fun ws h => ?_⟩
  · rw [lastModifier?_eq]
    cases hbest : mentioned vs rows with
    | none =>
        rw [hbest] at hfound
        exact iff_of_true rfl hfound
    | some r =>
        rw [hbest] at hfound
        obtain ⟨hcounts, front, back, rfl, -, -⟩ := hfound
        obtain ⟨who, hwho, -⟩ := hcounts.2
        refine iff_of_false ?_ fun hnone => hnone r (by simp) hcounts
        rw [Option.bind_some, hwho]
        exact Option.some_ne_none who
  · rw [lastModifier?_eq]
    cases hbest : mentioned vs rows with
    | none =>
        rw [hbest] at hfound
        refine iff_of_false (Option.some_ne_none who).symm ?_
        rintro ⟨r, hr, -⟩
        obtain ⟨hcounts, front, back, rfl, -, -⟩ := hr
        exact hfound r (by simp) hcounts
    | some b =>
        rw [hbest] at hfound
        constructor
        · intro hwho
          exact ⟨b, hfound, hwho⟩
        · rintro ⟨r, hr, hwho⟩
          rwa [hfound.unique hr]
  · rw [lastModifier?_eq, lastModifier?_eq, mentioned_congr h]

/-- Five rows: the second has no violation, nobody is known for the third, and the last two were
changed at the same time, after the first one. -/
def fiveRows : List Row :=
  [⟨1, "recA", [], some "ou_1", none⟩, ⟨2, "recB", [], some "ou_2", some (.int 900)⟩,
    ⟨3, "recC", [], some "", some (.int 800)⟩, ⟨4, "recD", [], some "ou_4", some (.int 200)⟩,
    ⟨5, "recE", [], some "ou_5", some (.int 200)⟩]

/-- Violations of all of them but the second. -/
def fourViolations : List Violation :=
  ["recE", "recA", "recC", "recD"].map fun id => ⟨id, 1, "Name", "", "p", [], "", none⟩

/-- The first of the two rows that were changed last decides. -/
theorem fiveRows_mention :
    (∀ r ∈ fiveRows, IsTimed r) ∧
      ∃ r, FirstLatest fourViolations fiveRows r ∧ r.lastModifiedBy = some "ou_4" := by
  have htimed : ∀ r ∈ fiveRows, IsTimed r := by
    simp [fiveRows, IsTimed]
  refine ⟨htimed, ?_⟩
  rw [← (last_modifier_found fourViolations htimed).2.1 "ou_4"]
  decide +kernel

end TableAudit.Notice
