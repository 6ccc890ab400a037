import TableAudit.Proofs.Check.Problems

/-!
# Cells that a check cannot decide

A check has an outcome for the text of a cell unless one of a few things stands in its way: the
text is an integer of more digits than are read, or one that should be compared as a double and is
too large for one; it is a moment to which the span of an expiry cannot be added; or it has a
problem for which the template of the message cannot be written. Nothing else does.
-/

namespace TableAudit

open TableAudit.Calendar (Moment)

/-! ### Texts read as what a rule speaks of -/

namespace Coercion

variable {s : String} {convert : Bool} {v : Value} {m : Moment}

theorem ofInstant_offset {t : Int} (h : Moment.ofInstant? t = some m) : m.offset = some 0 := by
  simp only [Moment.ofInstant?, Moment.ofLocalMicros?, Option.map_eq_some_iff] at h
  obtain ⟨d, -, rfl⟩ := h
  rfl

theorem ofEpoch_offset {x : Number.Binary64} (h : Moment.ofEpoch? x = some m) :
    m.offset = some 0 := by
  simp only [Moment.ofEpoch?] at h
  split at h
  · cases h
  · split at h
    · cases h
    · exact ofInstant_offset h

theorem loose_offset (h : Calendar.Loose.moment? s = some m) : m.offset = some 0 := by
  simp only [Calendar.Loose.moment?, Option.bind_eq_bind, Option.bind_eq_some_iff] at h
  obtain ⟨⟨date, micros, rest⟩, -, offset, -, instant, -, h⟩ := h
  exact ofInstant_offset h

theorem ofEpoch_double (x : Number.Binary64) : ∃ m?, ofEpoch (.float x) = .ok m? ∧
    ∀ m, m? = some m → m.offset = some 0 := by
  simp only [ofEpoch, ofSeconds?, Number.divNat?]
  split
  · exact ⟨_, rfl, fun m hm => ofEpoch_offset hm⟩
  · exact ⟨_, rfl, fun m hm => ofEpoch_offset hm⟩

/-- A text can always be read for a date: it stays as it is, or is a moment of a known clock. -/
theorem dateOfText_cases (convert : Bool) (s : String) :
    dateOfText convert s = .ok (.text s) ∨
      ∃ m, dateOfText convert s = .ok (.moment m) ∧ m.offset ≠ none := by
  simp only [dateOfText]
  split
  · exact Or.inl rfl
  · split
    next f _ =>
      cases convert with
      | false => exact Or.inl rfl
      | true =>
          obtain ⟨m?, hm, hoffset⟩ := ofEpoch_double f.double
          rw [hm]
          cases m? with
          | none => exact Or.inl rfl
          | some m => exact Or.inr ⟨m, rfl, by simp [hoffset m rfl]⟩
    next =>
      split
      next m _ => exact Or.inr ⟨m.assumeUniversal, rfl, by simp [Moment.assumeUniversal]⟩
      next =>
        cases convert with
        | false => exact Or.inl rfl
        | true =>
            cases hm : Calendar.Loose.moment? (Text.trim s) with
            | none => exact Or.inl rfl
            | some m => exact Or.inr ⟨m, rfl, by simp [loose_offset hm]⟩

theorem dateOfText_blank (h : Text.isBlankText s = true) :
    dateOfText convert s = .ok (.text s) := by
  rw [Text.isBlankText_iff] at h
  simp [dateOfText, h]

theorem form_of_blank (h : Text.isBlankText s = true) :
    Number.form? (Text.trimChars s.toList) = none := by
  rw [Text.isBlankText_iff, Text.trim, ← String.toList_inj, String.toList_ofList,
    String.toList_empty] at h
  rw [h]
  rfl

/-- A text that is an integer cannot be read for a number if it has too many digits. -/
theorem number_error_iff : (∃ f, number (.text s) = .error f) ↔
    ∃ f, Number.form? (Text.trimChars s.toList) = some f ∧ f.isInteger = true ∧
      Number.digitLimit < f.whole.length := by
  simp only [number]
  cases Number.form? (Text.trimChars s.toList) with
  | none => simp
  | some f =>
      cases hi : f.isInteger with
      | false => simp [hi]
      | true =>
          simp only [if_true, Option.some.injEq, exists_eq_left', hi, true_and, Number.Form.integer]
          split <;> simp_all [Except.map]

end Coercion

namespace Check

variable {c : Check} {s : String} {v : Value} {k : Rule.Keyword} {p : Problem}

/-- A problem is found with the text of a cell, and what was expected instead. -/
def Finds (c : Check) (s : String) (p : Problem) (expected : Value) : Prop :=
  if Text.isBlankText s = true ∧ (blankProblem? c.rule).isSome = true then
    blankProblem? c.rule = some (some p) ∧ expected = .null
  else ∃ v k, c.rule.coerce (.text s) = .ok v ∧ k ∈ c.rule.keywords ∧ c.meets v k = .ok false ∧
    p = .ofKeyword c.rule k ∧ expected = k.value

/-- What keeps a check from an outcome for the text of a cell. -/
inductive Obstacle (c : Check) (s : String) : Prop
  /-- The text is an integer of more digits than are read. -/
  | digits (r : Rule.Number) (f : Number.Form) (rule : c.rule = .number r)
      (read : Number.form? (Text.trimChars s.toList) = some f) (integer : f.isInteger = true)
      (long : Number.digitLimit < f.whole.length)
  /-- Integers are demanded, and the text is one that is too large to be a double. -/
  | magnitude (r : Rule.Number) (n : Int) (rule : c.rule = .number r) (demanded : r.integer = true)
      (read : Coercion.number (.text s) = .ok (.int n)) (large : (Number.int n).toDouble? = none)
  /-- The text is a moment that is to be moved by a span by which no moment can be. -/
  | span (r : Rule.Date) (x : Rule.Expiry) (m : Moment) (rule : c.rule = .date r)
      (demanded : r.expiry = some x) (read : Coercion.dateOfText r.convert s = .ok (.moment m))
      (long : isSpan x.millis = false)
  /-- The text is a moment that the span moves out of the calendar. -/
  | deadline (r : Rule.Date) (x : Rule.Expiry) (m : Moment) (rule : c.rule = .date r)
      (demanded : r.expiry = some x) (read : Coercion.dateOfText r.convert s = .ok (.moment m))
      (out : m.later? (x.millis * 1000) = none)
  /-- A problem is found whose message cannot be written. -/
  | wording (p : Problem) (expected : Value) (f : Fault) (found : c.Finds s p expected)
      (broken : Message.format (c.namesFor expected (.text s)) (c.template p) = .error f)

/-! ### Keywords that cannot be decided -/

/-- A moment cannot be put to an expiry if the span cannot be added to it, as long as both clocks
are known. -/
theorem hasExpired_error_iff {now m : Moment} {millis : Int} (hnow : now.offset ≠ none)
    (hm : m.offset ≠ none) : (∃ f, hasExpired now millis m = .error f) ↔
      isSpan millis = false ∨ m.later? (millis * 1000) = none := by
  simp only [hasExpired]
  cases hs : isSpan millis with
  | false => simp
  | true =>
      cases hl : m.later? (millis * 1000) with
      | none => simp
      | some deadline =>
          have hd : deadline.offset = m.offset := by
            simp only [Moment.later?, Moment.ofLocalMicros?, Option.map_eq_some_iff] at hl
            obtain ⟨d, -, rfl⟩ := hl
            rfl
          obtain ⟨a, ha⟩ := Option.ne_none_iff_exists'.mp hnow
          obtain ⟨b, hb⟩ := Option.ne_none_iff_exists'.mp hm
          simp [Moment.after?, Moment.instant?, ha, hd, hb]

/-- Whatever else a text is read as, only a large integer and a moment out of reach cannot be put
to a keyword. -/
theorem obstacle_of_undecided (hnow : c.now.offset ≠ none)
    (hv : c.rule.coerce (.text s) = .ok v) (hk : k ∈ c.rule.keywords)
    (h : ∃ f, c.meets v k = .error f) : c.Obstacle s := by
  cases k with
  | integer =>
      obtain ⟨r, hr, hi⟩ := Rule.integer_mem_keywords.mp hk
      rw [hr] at hv
      obtain ⟨f, hf⟩ := h
      simp only [meets] at hf
      split at hf
      next n hn =>
        split at hf
        · cases hf
        next hd =>
          cases n with
          | float x => cases hd
          | int n =>
              cases v with
              | int n' =>
                  obtain rfl : n' = n := by simpa [Value.number?] using hn
                  exact .magnitude r n' hr hi hv hd
              | _ => cases hn
      · cases hf
  | expiry millis =>
      obtain ⟨r, x, hr, hx, rfl⟩ := Rule.expiry_mem_keywords.mp hk
      rw [hr] at hv
      change Coercion.dateOfText r.convert s = .ok v at hv
      obtain ht | ⟨m, hm, hoffset⟩ := Coercion.dateOfText_cases r.convert s
      · rw [ht] at hv
        cases hv
        obtain ⟨f, hf⟩ := h
        cases hf
      · have hread := hm
        rw [hm] at hv
        cases hv
        obtain hs | hl := (hasExpired_error_iff hnow hoffset).mp (map_error_iff.mp h)
        · exact .span r x m hr hx hread hs
        · exact .deadline r x m hr hx hread hl
  | _ =>
      obtain ⟨f, hf⟩ := h
      cases hf

/-! ### Cells that cannot be decided -/

/-- A cell is settled by being blank, or it is read and put to every keyword. -/
theorem run_cases (c : Check) (s : String) :
    (∃ q, Text.isBlankText s = true ∧ blankProblem? c.rule = some q ∧
        c.run (.text s) = match q with
          | none => .ok []
          | some p => (c.report p .null (.text s)).map ([·])) ∨
      ¬ (Text.isBlankText s = true ∧ (blankProblem? c.rule).isSome = true) ∧
        c.run (.text s) = c.runFull (.text s) := by
  by_cases hb : Text.isBlankText s = true
  · cases hq : blankProblem? c.rule with
    | none => exact Or.inr ⟨by simp, by simp [run, hb, hq]⟩
    | some q =>
        refine Or.inl ⟨q, hb, rfl, ?_⟩
        cases q <;> simp [run, hb, hq]
  · exact Or.inr ⟨fun h => hb h.1, by simp [run, hb]⟩

/-- There is no outcome only if something stands in its way. -/
theorem obstacle_of_error (hnow : c.now.offset ≠ none) (h : ∃ f, c.run (.text s) = .error f) :
    c.Obstacle s := by
  obtain ⟨q, hb, hq, hrun⟩ | ⟨hfull, hrun⟩ := run_cases c s
  · rw [hrun] at h
    cases q with
    | none => simp at h
    | some p =>
        obtain ⟨f, hf⟩ := report_error_iff.mp (map_error_iff.mp h)
        refine .wording p .null f ?_ hf
        rw [Finds, if_pos ⟨hb, by simp [hq]⟩]
        exact ⟨hq, rfl⟩
  · rw [hrun, runFull] at h
    cases hv : c.rule.coerce (.text s) with
    | error f =>
        obtain ⟨r, hr⟩ : ∃ r, c.rule = .number r := by
          cases hr : c.rule with
          | number r => exact ⟨r, rfl⟩
          | date r =>
              rw [hr] at hv
              change Coercion.dateOfText r.convert s = .error f at hv
              obtain ht | ⟨m, hm, -⟩ := Coercion.dateOfText_cases r.convert s
              · simp [ht] at hv
              · simp [hm] at hv
          | _ =>
              rw [hr] at hv
              cases hv
        rw [hr] at hv
        obtain ⟨form, hread, hinteger, hlong⟩ := Coercion.number_error_iff.mp ⟨f, hv⟩
        exact .digits r form hr hread hinteger hlong
    | ok v =>
        rw [hv] at h
        change ∃ f, c.problems (.text s) v c.rule.keywords = .error f at h
        obtain ⟨k, hk, hm | ⟨hm, hreport⟩⟩ := problems_error_iff.mp h
        · exact obstacle_of_undecided hnow hv hk hm
        · obtain ⟨f, hf⟩ := report_error_iff.mp hreport
          refine .wording _ k.value f ?_ hf
          rw [Finds, if_neg hfull]
          exact ⟨v, k, hv, hk, hm, rfl, rfl⟩

theorem runFull_of_coerce (hv : c.rule.coerce (.text s) = .ok v) :
    c.runFull (.text s) = c.problems (.text s) v c.rule.keywords := by
  rw [runFull, hv]
  rfl

/-- A text that is not blank has no outcome if it is read as something that cannot be put to a
keyword. -/
theorem error_of_undecided (hb : ¬ Text.isBlankText s = true)
    (hv : c.rule.coerce (.text s) = .ok v) (hk : k ∈ c.rule.keywords)
    (hm : ∃ f, c.meets v k = .error f) : ∃ f, c.run (.text s) = .error f := by
  obtain ⟨-, hb', -⟩ | ⟨-, hrun⟩ := run_cases c s
  · exact absurd hb' hb
  · rw [hrun, runFull_of_coerce hv]
    exact problems_error_iff.mpr ⟨k, hk, Or.inl hm⟩

theorem error_of_expiry {r : Rule.Date} {x : Rule.Expiry} {m : Moment}
    (hnow : c.now.offset ≠ none) (hr : c.rule = .date r) (hx : r.expiry = some x)
    (hread : Coercion.dateOfText r.convert s = .ok (.moment m))
    (h : isSpan x.millis = false ∨ m.later? (x.millis * 1000) = none) :
    ∃ f, c.run (.text s) = .error f := by
  have hb : ¬ Text.isBlankText s = true := fun hb => by
    rw [Coercion.dateOfText_blank hb] at hread
    cases hread
  have hoffset : m.offset ≠ none := by
    obtain ht | ⟨m', hm, hoffset⟩ := Coercion.dateOfText_cases r.convert s
    · simp [ht] at hread
    · rw [hm] at hread
      cases hread
      exact hoffset
  refine error_of_undecided hb (by rw [hr]; exact hread)
    (Rule.expiry_mem_keywords.mpr ⟨r, x, hr, hx, rfl⟩) ?_
  exact map_error_iff.mpr ((hasExpired_error_iff hnow hoffset).mpr h)

/-- Whatever stands in the way leaves no outcome. -/
theorem error_of_obstacle (hnow : c.now.offset ≠ none) (h : c.Obstacle s) :
    ∃ f, c.run (.text s) = .error f := by
  cases h with
  | digits r form hr hread hinteger hlong =>
      have hb : ¬ Text.isBlankText s = true := fun hb => by
        rw [Coercion.form_of_blank hb] at hread
        cases hread
      obtain ⟨f, hf⟩ := Coercion.number_error_iff.mpr ⟨form, hread, hinteger, hlong⟩
      obtain ⟨-, hb', -⟩ | ⟨-, hrun⟩ := run_cases c s
      · exact absurd hb' hb
      · refine ⟨f, ?_⟩
        rw [hrun, runFull, hr, Rule.coerce, hf]
        rfl
  | magnitude r n hr hi hread hlarge =>
      have hb : ¬ Text.isBlankText s = true := fun hb => by
        simp [Coercion.number, Coercion.form_of_blank hb] at hread
      refine error_of_undecided hb (by rw [hr]; exact hread)
        (Rule.integer_mem_keywords.mpr ⟨r, hr, hi⟩) ⟨.outOfRange, ?_⟩
      simp [meets, Value.number?, hlarge]
  | span r x m hr hx hread hs =>
      exact error_of_expiry hnow hr hx hread (Or.inl hs)
  | deadline r x m hr hx hread hl =>
      exact error_of_expiry hnow hr hx hread (Or.inr hl)
  | wording p expected f hfound hbroken =>
      rw [Finds] at hfound
      obtain ⟨q, hb, hq, hrun⟩ | ⟨hfull, hrun⟩ := run_cases c s
      · rw [if_pos ⟨hb, by simp [hq]⟩] at hfound
        obtain ⟨hp, rfl⟩ := hfound
        obtain rfl : q = some p := Option.some.inj (hq.symm.trans hp)
        rw [hrun]
        exact map_error_iff.mpr (report_error_iff.mpr ⟨f, hbroken⟩)
      · rw [if_neg hfull] at hfound
        obtain ⟨v, k, hv, hk, hm, rfl, rfl⟩ := hfound
        rw [hrun, runFull_of_coerce hv]
        exact problems_error_iff.mpr ⟨k, hk, Or.inr ⟨hm, report_error_iff.mpr ⟨f, hbroken⟩⟩⟩

/-- There is an outcome exactly if nothing stands in its way. -/
theorem run_ok_iff (hnow : c.now.offset ≠ none) (s : String) :
    (∃ errors, c.run (.text s) = .ok errors) ↔ ¬ c.Obstacle s := by
  have herror : (∃ f, c.run (.text s) = .error f) ↔ c.Obstacle s :=
    ⟨obstacle_of_error hnow, error_of_obstacle hnow⟩
  rw [← herror, exists_error_iff, Classical.not_not]

end Check

end TableAudit
