import Mathlib.Data.List.TakeWhile
import TableAudit.Duration
import TableAudit.Proofs.Number.Digits

/-!
# The grammar of durations

A duration is a sequence of parts, each a number with a unit, with blanks around and between them.
The reader takes every part as long as it can, so the digits of two numbers without anything
between them are read as one number. No text of the grammar is lost by that: what stands after a
number still is a unit and further parts when the digits at its front are taken away.
-/

namespace TableAudit.Duration

open TableAudit.Number (Binary64 Form Stops isDecimalDigit_not_blank span_append)
open TableAudit.Text (isBlank isDecimalDigit)

variable {c : Char} {cs ds ps sign number gap word part rest a : List Char}

/-- Only blanks, or nothing. -/
def Blanks (cs : List Char) : Prop :=
  ∀ c ∈ cs, isBlank c = true

instance : Decidable (Blanks cs) :=
  List.decidableBAll _ cs

/-- Digits, at least one. -/
structure Digits (ds : List Char) : Prop where
  ne_nil : ds ≠ []
  all : ∀ c ∈ ds, isDecimalDigit c = true

/-- A minus sign or none. -/
def IsSign (cs : List Char) : Prop :=
  cs = [] ∨ cs = ['-']

/-- A number: digits with an optional minus sign and optional decimals, or decimals alone. -/
inductive IsNumber : List Char → Prop
  | whole {sign ds : List Char} (hs : IsSign sign) (hd : Digits ds) : IsNumber (sign ++ ds)
  | decimal {sign ds ps : List Char} (hs : IsSign sign) (hd : Digits ds) (hp : Digits ps) :
      IsNumber (sign ++ (ds ++ '.' :: ps))
  | places {ps : List Char} (hp : Digits ps) : IsNumber ('.' :: ps)

/-- A word for a unit. The empty word is one. -/
def IsUnit (word : List Char) : Prop :=
  (unit? (String.ofList word)).isSome = true

instance : Decidable (IsUnit word) :=
  inferInstanceAs (Decidable (_ = true))

/-- A part: a number, blanks and a unit. -/
inductive IsPart : List Char → Prop
  | mk {number gap word : List Char} (hn : IsNumber number) (hg : Blanks gap) (hw : IsUnit word) :
      IsPart (number ++ (gap ++ word))

/-- Parts with blanks between them, at least one. -/
inductive IsParts : List Char → Prop
  | one {part : List Char} (h : IsPart part) : IsParts part
  | more {part gap rest : List Char} (h : IsPart part) (hg : Blanks gap) (tail : IsParts rest) :
      IsParts (part ++ (gap ++ rest))

/-- A duration: parts with blanks between and around them. -/
def IsDuration (cs : List Char) : Prop :=
  ∃ front core back, Blanks front ∧ IsParts core ∧ Blanks back ∧ cs = front ++ (core ++ back)

/-- Blanks and parts in any order. -/
inductive Mixed : List Char → Prop
  | nil : Mixed []
  | blank {c : Char} {cs : List Char} (hc : isBlank c = true) (tail : Mixed cs) : Mixed (c :: cs)
  | part {part rest : List Char} (h : IsPart part) (tail : Mixed rest) : Mixed (part ++ rest)

/-- What may stand after a number: blanks, a unit, and further blanks and parts. -/
inductive After : List Char → Prop
  | mk {gap word rest : List Char} (hg : Blanks gap) (hw : IsUnit word) (tail : Mixed rest) :
      After (gap ++ (word ++ rest))

/-! ### Kinds of characters -/

theorem IsUnit.letters (h : IsUnit word) : ∀ c ∈ word, isUnitLetter c = true := by
  have hall : ∀ u ∈ units, ∀ name ∈ u.2, name.toList.all isUnitLetter = true := by decide
  rw [IsUnit, unit?, Option.isSome_map, List.find?_isSome] at h
  obtain ⟨u, hu, hname⟩ := h
  have hletters := hall u hu _ (List.contains_iff_mem.mp hname)
  rwa [String.toList_ofList, List.all_eq_true] at hletters

theorem isUnit_nil : IsUnit [] :=
  rfl

theorem isUnitLetter_iff : isUnitLetter c = true ↔
    65 ≤ c.toNat ∧ c.toNat ≤ 90 ∨ 97 ≤ c.toNat ∧ c.toNat ≤ 122 := by
  have hupper : c.isUpper = true ↔ 65 ≤ c.toNat ∧ c.toNat ≤ 90 := decide_eq_true_iff
  have hlower : c.isLower = true ↔ 97 ≤ c.toNat ∧ c.toNat ≤ 122 := by
    change (decide (97 ≤ c.toNat) && decide (c.toNat ≤ 122)) = true ↔ _
    rw [Bool.and_eq_true, decide_eq_true_iff, decide_eq_true_iff]
  rw [← hupper, ← hlower, ← Bool.or_eq_true]
  rfl

theorem letter_not_digit (h : isUnitLetter c = true) : isDecimalDigit c = false := by
  have hrange := isUnitLetter_iff.mp h
  rw [isDecimalDigit, Text.digitValue?, if_pos (by omega), if_neg]
  · rfl
  · simp only [Char.isDigit, Bool.and_eq_true, decide_eq_true_eq]
    rintro ⟨-, hle⟩
    have hle : c.toNat ≤ 57 := hle
    omega

theorem letter_not_blank (h : isUnitLetter c = true) : isBlank c = false := by
  have hrange := isUnitLetter_iff.mp h
  rw [Bool.eq_false_iff]
  intro hb
  simp only [isBlank, Bool.or_eq_true, Bool.and_eq_true, decide_eq_true_eq, beq_iff_eq] at hb
  omega

theorem digit_not_letter (h : isDecimalDigit c = true) : isUnitLetter c = false := by
  rw [Bool.eq_false_iff]
  intro hl
  rw [letter_not_digit hl] at h
  cases h

/-- The first character of a number. -/
inductive Opens (c : Char) : Prop
  | minus (h : c = '-')
  | point (h : c = '.')
  | digit (h : isDecimalDigit c = true)

theorem Opens.not_blank (h : Opens c) : isBlank c = false := by
  obtain rfl | rfl | h := h
  · decide
  · decide
  · exact isDecimalDigit_not_blank h

theorem Opens.not_letter (h : Opens c) : isUnitLetter c = false := by
  obtain rfl | rfl | h := h
  · decide
  · decide
  · exact digit_not_letter h

theorem Digits.exists_cons (h : Digits ds) :
    ∃ d rest, ds = d :: rest ∧ isDecimalDigit d = true := by
  obtain ⟨d, rest, rfl⟩ := List.exists_cons_of_ne_nil h.ne_nil
  exact ⟨d, rest, rfl, h.all d List.mem_cons_self⟩

theorem Digits.append_isEmpty (h : Digits ds) (a : List Char) : (ds ++ a).isEmpty = false := by
  obtain ⟨d, rest, rfl, -⟩ := h.exists_cons
  rfl

theorem IsNumber.exists_cons (h : IsNumber number) : ∃ c cs, number = c :: cs ∧ Opens c := by
  cases h with
  | whole hs hd =>
      obtain ⟨d, rest, rfl, hdigit⟩ := hd.exists_cons
      obtain rfl | rfl := hs
      · exact ⟨d, rest, rfl, .digit hdigit⟩
      · exact ⟨'-', _, rfl, .minus rfl⟩
  | decimal hs hd =>
      obtain ⟨d, rest, rfl, hdigit⟩ := hd.exists_cons
      obtain rfl | rfl := hs
      · exact ⟨d, _, rfl, .digit hdigit⟩
      · exact ⟨'-', _, rfl, .minus rfl⟩
  | places => exact ⟨'.', _, rfl, .point rfl⟩

/-! ### Durations as blanks and parts -/

theorem Mixed.blanks (hg : Blanks gap) (h : Mixed cs) : Mixed (gap ++ cs) := by
  induction gap with
  | nil => exact h
  | cons c gap ih =>
      obtain ⟨hc, hg⟩ := List.forall_mem_cons.mp hg
      exact .blank hc (ih hg)

theorem mixed_of_blanks (hg : Blanks gap) : Mixed gap := by
  have := Mixed.blanks hg .nil
  rwa [List.append_nil] at this

theorem IsParts.mixed (h : IsParts cs) (tail : Mixed rest) : Mixed (cs ++ rest) := by
  induction h with
  | one h => exact .part h tail
  | more h hg _ ih =>
      rw [List.append_assoc, List.append_assoc]
      exact .part h (.blanks hg ih)

theorem IsDuration.mixed (h : IsDuration cs) : Mixed cs := by
  obtain ⟨front, core, back, hf, hcore, hb, rfl⟩ := h
  exact .blanks hf (hcore.mixed (mixed_of_blanks hb))

/-- Blanks and parts are blanks only, or a duration. -/
theorem Mixed.blanks_or_duration (h : Mixed cs) : Blanks cs ∨ IsDuration cs := by
  induction h with
  | nil => exact Or.inl nofun
  | @blank c cs hc _ ih =>
      refine ih.imp (fun hcs => List.forall_mem_cons.mpr ⟨hc, hcs⟩) ?_
      rintro ⟨front, core, back, hf, hcore, hb, rfl⟩
      exact ⟨c :: front, core, back, List.forall_mem_cons.mpr ⟨hc, hf⟩, hcore, hb, rfl⟩
  | @part part rest h _ ih =>
      right
      obtain hrest | ⟨front, core, back, hf, hcore, hb, rfl⟩ := ih
      · exact ⟨[], part, rest, nofun, .one h, hrest, rfl⟩
      · refine ⟨[], part ++ (front ++ core), back, nofun, .more h hf hcore, hb, ?_⟩
        simp only [List.nil_append, List.append_assoc]

theorem IsPart.exists_cons (h : IsPart part) : ∃ c cs, part = c :: cs ∧ Opens c := by
  obtain ⟨hn, -, -⟩ := h
  obtain ⟨c, cs, rfl, hc⟩ := hn.exists_cons
  exact ⟨c, _, rfl, hc⟩

theorem IsParts.exists_cons (h : IsParts cs) : ∃ c rest, cs = c :: rest ∧ Opens c := by
  cases h with
  | one h => exact h.exists_cons
  | more h =>
      obtain ⟨c, cs, rfl, hc⟩ := h.exists_cons
      exact ⟨c, _, rfl, hc⟩

theorem IsDuration.not_blanks (h : IsDuration cs) : ¬ Blanks cs := by
  obtain ⟨front, core, back, -, hcore, -, rfl⟩ := h
  obtain ⟨c, rest, rfl, hc⟩ := hcore.exists_cons
  intro hall
  have hb := hall c (by simp)
  rw [hc.not_blank] at hb
  cases hb

/-- A duration is blanks and parts, but not blanks only. -/
theorem isDuration_iff : IsDuration cs ↔ Mixed cs ∧ ¬ Blanks cs :=
  ⟨fun h => ⟨h.mixed, h.not_blanks⟩, fun h => h.1.blanks_or_duration.resolve_left h.2⟩

/-! ### What stands after a number -/

theorem After.of_mixed (h : Mixed a) : After a := by
  have hnone : Blanks [] := nofun
  exact .mk hnone isUnit_nil h

theorem Mixed.of_number (hn : IsNumber number) (ha : After a) : Mixed (number ++ a) := by
  obtain ⟨hg, hw, tail⟩ := ha
  have := Mixed.part (.mk hn hg hw) tail
  simpa only [List.append_assoc] using this

/-- Blanks and parts that do not begin with a blank begin with a number. -/
theorem Mixed.exists_number (h : Mixed (c :: cs)) (hc : isBlank c = false) :
    ∃ number a, IsNumber number ∧ After a ∧ c :: cs = number ++ a := by
  generalize heq : c :: cs = text at h
  cases h with
  | nil => cases heq
  | blank hb =>
      cases heq
      rw [hb] at hc
      cases hc
  | part hpart tail =>
      obtain ⟨hn, hg, hw⟩ := hpart
      exact ⟨_, _, hn, .mk hg hw tail, by simp only [List.append_assoc]⟩

/-- What stands after a number and goes on like a number begins with one. -/
theorem After.exists_number (h : After (c :: cs)) (hc : Opens c) :
    ∃ number a, IsNumber number ∧ After a ∧ c :: cs = number ++ a := by
  generalize heq : c :: cs = text at h
  obtain @⟨gap, word, rest, hg, hw, tail⟩ := h
  match gap, word, heq with
  | [], [], heq => exact heq ▸ (heq.symm ▸ tail : Mixed (c :: cs)).exists_number hc.not_blank
  | [], d :: word, heq =>
      cases heq
      have := hw.letters c List.mem_cons_self
      rw [hc.not_letter] at this
      cases this
  | d :: gap, _, heq =>
      cases heq
      have := hg c List.mem_cons_self
      rw [hc.not_blank] at this
      cases this

theorem dropDigits (hd : ∀ c ∈ ds, isDecimalDigit c = true) (a : List Char) :
    (ds ++ a).dropWhile isDecimalDigit = a.dropWhile isDecimalDigit :=
  List.dropWhile_append_of_pos hd

theorem dropDigits_point (hd : Digits ds) (a : List Char) :
    (ds ++ '.' :: a).dropWhile isDecimalDigit = '.' :: a := by
  rw [dropDigits hd.all, List.dropWhile_cons_of_neg (by decide)]

/-- The digits at the front may be counted to the number before. -/
theorem After.dropDigits (h : After a) : After (a.dropWhile isDecimalDigit) := by
  induction hlength : a.length using Nat.strong_induction_on generalizing a with
  | _ length ih =>
    match a with
    | [] => exact h
    | d :: rest =>
      by_cases hdigit : isDecimalDigit d = true
      · obtain ⟨number, b, hn, hb, heq⟩ := h.exists_number (.digit hdigit)
        have hne {e : Char} (he : isDecimalDigit e = false) : d ≠ e := by
          rintro rfl
          rw [he] at hdigit
          cases hdigit
        rw [heq] at hlength ⊢
        cases hn with
        | @whole sign ds hs hd =>
            obtain rfl | rfl := hs
            · rw [List.nil_append, Duration.dropDigits hd.all]
              have := List.length_pos_iff.mpr hd.ne_nil
              simp only [List.nil_append, List.length_append] at hlength
              exact ih b.length (by omega) hb rfl
            · exact absurd (List.cons.inj heq).1 (hne (by decide))
        | @decimal sign ds ps hs hd hp =>
            obtain rfl | rfl := hs
            · rw [List.nil_append, List.append_assoc, List.cons_append, dropDigits_point hd]
              exact .of_mixed (.of_number (.places hp) hb)
            · exact absurd (List.cons.inj heq).1 (hne (by decide))
        | places => exact absurd (List.cons.inj heq).1 (hne (by decide))
      · rwa [List.dropWhile_cons_of_neg hdigit]

/-- A point is followed by digits, and these may be counted to the number before. -/
theorem After.dropPlaces (h : After ('.' :: a)) :
    (∃ d rest, a = d :: rest ∧ isDecimalDigit d = true) ∧ After (a.dropWhile isDecimalDigit) := by
  obtain ⟨number, b, hn, hb, heq⟩ := h.exists_number (.point rfl)
  have hdigit {ds : List Char} (hd : Digits ('.' :: ds)) : False := by
    have := hd.all '.' List.mem_cons_self
    revert this
    decide
  cases hn with
  | @whole sign ds hs hd =>
      obtain ⟨d, rest, rfl, -⟩ := hd.exists_cons
      obtain rfl | rfl := hs
      · cases heq
        exact (hdigit hd).elim
      · cases heq
  | @decimal sign ds ps hs hd hp =>
      obtain ⟨d, rest, rfl, -⟩ := hd.exists_cons
      obtain rfl | rfl := hs
      · cases heq
        exact (hdigit hd).elim
      · cases heq
  | @places ps hp =>
      obtain rfl : a = ps ++ b := (List.cons.inj heq).2
      rw [Duration.dropDigits hp.all]
      obtain ⟨d, rest, rfl, hd⟩ := hp.exists_cons
      exact ⟨⟨d, _, rfl, hd⟩, hb.dropDigits⟩

/-! ### Numbers at the front -/

/-- A minus sign at the front and the rest. -/
def spanMinus (cs : List Char) : Bool × List Char :=
  match cs with
  | '-' :: rest => (true, rest)
  | _ => (false, cs)

/-- The decimals at the front, behind a point, and the rest. -/
def spanPlaces (cs : List Char) : List Char × List Char :=
  match cs with
  | '.' :: rest => rest.span isDecimalDigit
  | _ => ([], cs)

theorem number?_eq (cs : List Char) : number? cs =
    let w := (spanMinus cs).2.span isDecimalDigit
    let p := spanPlaces w.2
    if w.1.isEmpty then
      if (spanMinus cs).1 || p.1.isEmpty then none else some (⟨false, [], some p.1, none⟩, p.2)
    else if p.1.isEmpty then some (⟨(spanMinus cs).1, w.1, none, none⟩, w.2)
    else some (⟨(spanMinus cs).1, w.1, some p.1, none⟩, p.2) :=
  rfl

theorem spanMinus_spec (cs : List Char) : ∃ sign, IsSign sign ∧ cs = sign ++ (spanMinus cs).2 ∧
    ((spanMinus cs).1 = false → sign = []) := by
  unfold spanMinus
  split
  · exact ⟨['-'], Or.inr rfl, rfl, nofun⟩
  · exact ⟨[], Or.inl rfl, rfl, fun _ => rfl⟩

theorem digits_takeWhile (h : cs.takeWhile isDecimalDigit ≠ []) :
    Digits (cs.takeWhile isDecimalDigit) :=
  ⟨h, fun _ hc => List.mem_takeWhile_imp hc⟩

theorem spanPlaces_spec (h : (spanPlaces cs).1 ≠ []) :
    Digits (spanPlaces cs).1 ∧ cs = '.' :: ((spanPlaces cs).1 ++ (spanPlaces cs).2) := by
  unfold spanPlaces at h ⊢
  split at h
  next rest =>
    simp only [List.span_eq_takeWhile_dropWhile, List.takeWhile_append_dropWhile] at h ⊢
    exact ⟨digits_takeWhile h, trivial⟩
  next => exact absurd rfl h

/-- What is read is a number. -/
theorem number?_sound {f : Form} (h : number? cs = some (f, rest)) :
    ∃ number, IsNumber number ∧ cs = number ++ rest := by
  obtain ⟨sign, hs, hcs, hplain⟩ := spanMinus_spec cs
  have hbody := List.takeWhile_append_dropWhile (p := isDecimalDigit) (l := (spanMinus cs).2)
  have hplaces := @spanPlaces_spec ((spanMinus cs).2.dropWhile isDecimalDigit)
  rw [number?_eq] at h
  simp only [List.span_eq_takeWhile_dropWhile, List.isEmpty_iff] at h
  split at h
  next hempty =>
    split at h
    next => cases h
    next hnot =>
      cases h
      simp only [Bool.or_eq_true, List.isEmpty_iff, not_or] at hnot
      obtain ⟨hp, heq⟩ := hplaces hnot.2
      rw [hempty, List.nil_append] at hbody
      rw [hplain (by simpa using hnot.1), List.nil_append, ← hbody, heq] at hcs
      exact ⟨_, .places hp, hcs⟩
  next hne =>
    split at h
    next =>
      cases h
      refine ⟨_, .whole hs (digits_takeWhile hne), ?_⟩
      rw [List.append_assoc, hbody]
      exact hcs
    next hp =>
      cases h
      obtain ⟨hp, heq⟩ := hplaces hp
      refine ⟨_, .decimal hs (digits_takeWhile hne) hp, ?_⟩
      rw [List.append_assoc, List.append_assoc, List.cons_append, ← heq, hbody]
      exact hcs

theorem spanMinus_append (hs : IsSign sign) (hd : Digits ds) (a : List Char) :
    spanMinus (sign ++ (ds ++ a)) = (decide (sign = ['-']), ds ++ a) := by
  obtain rfl | rfl := hs
  · obtain ⟨d, rest, rfl, hdigit⟩ := hd.exists_cons
    rw [List.nil_append, List.cons_append, spanMinus]
    · rfl
    · intro _ heq
      rw [(List.cons.inj heq).1] at hdigit
      revert hdigit
      decide
  · rfl

theorem takeDigits (hd : Digits ds) (a : List Char) :
    (ds ++ a).takeWhile isDecimalDigit = ds ++ a.takeWhile isDecimalDigit :=
  List.takeWhile_append_of_pos hd.all

/-- Digits behind an optional sign are read together with the digits and decimals after them. -/
theorem number?_digits (hs : IsSign sign) (hd : Digits ds) (a : List Char) :
    number? (sign ++ (ds ++ a)) =
      let w := ds ++ a.takeWhile isDecimalDigit
      let r := a.dropWhile isDecimalDigit
      if (spanPlaces r).1.isEmpty then some (⟨decide (sign = ['-']), w, none, none⟩, r)
      else some (⟨decide (sign = ['-']), w, some (spanPlaces r).1, none⟩, (spanPlaces r).2) := by
  have hne := hd.append_isEmpty (a.takeWhile isDecimalDigit)
  rw [number?_eq]
  simp only [spanMinus_append hs hd, List.span_eq_takeWhile_dropWhile, takeDigits hd,
    dropDigits hd.all, hne, Bool.false_eq_true, if_false]

theorem number?_point (hp : Digits ps) (a : List Char) :
    number? ('.' :: (ps ++ a)) = some (⟨false, [], some (ps ++ a.takeWhile isDecimalDigit), none⟩,
      a.dropWhile isDecimalDigit) := by
  have hne := hp.append_isEmpty (a.takeWhile isDecimalDigit)
  have hminus (cs : List Char) : spanMinus ('.' :: cs) = (false, '.' :: cs) := rfl
  have hpoint : isDecimalDigit '.' = false := by decide
  rw [number?_eq]
  simp only [hminus, List.span_eq_takeWhile_dropWhile, List.takeWhile_cons, List.dropWhile_cons,
    hpoint, Bool.false_eq_true, if_false, List.isEmpty_nil, if_true, spanPlaces, takeDigits hp,
    dropDigits hp.all, hne, Bool.or_self]

theorem After.spanPlaces (h : After a) : After (spanPlaces a).2 := by
  unfold Duration.spanPlaces
  split
  next rest =>
    rw [List.span_eq_takeWhile_dropWhile]
    exact h.dropPlaces.2
  next => exact h

theorem number?_digits_after (hs : IsSign sign) (hd : Digits ds) (ha : After a) :
    ∃ f b, number? (sign ++ (ds ++ a)) = some (f, b) ∧ After b := by
  rw [number?_digits hs hd]
  dsimp only
  split
  · exact ⟨_, _, rfl, ha.dropDigits⟩
  · exact ⟨_, _, rfl, ha.dropDigits.spanPlaces⟩

/-- A number is read where one stands, and what may stand after a number stands after it. -/
theorem number?_complete (hn : IsNumber number) (ha : After a) :
    ∃ f b, number? (number ++ a) = some (f, b) ∧ After b := by
  cases hn with
  | whole hs hd =>
      rw [List.append_assoc]
      exact number?_digits_after hs hd ha
  | decimal hs hd hp =>
      rw [List.append_assoc, List.append_assoc]
      exact number?_digits_after hs hd (.of_mixed (.of_number (.places hp) ha))
  | places hp =>
      rw [List.cons_append, number?_point hp]
      exact ⟨_, _, rfl, ha.dropDigits⟩

/-! ### Parts at the front -/

theorem Mixed.tail (h : Mixed (c :: cs)) (hc : isBlank c = true) : Mixed cs := by
  generalize heq : c :: cs = text at h
  cases h with
  | nil => cases heq
  | blank _ tail =>
      cases heq
      exact tail
  | part hpart _ =>
      obtain ⟨d, rest, rfl, hd⟩ := hpart.exists_cons
      rw [(List.cons.inj heq).1, hd.not_blank] at hc
      cases hc

theorem Mixed.dropBlanks (h : Mixed cs) : Mixed (cs.dropWhile isBlank) := by
  induction cs with
  | nil => exact h
  | cons c cs ih =>
      by_cases hc : isBlank c = true
      · rw [List.dropWhile_cons_of_pos hc]
        exact ih (h.tail hc)
      · rwa [List.dropWhile_cons_of_neg hc]

/-- Blanks and parts do not begin with a letter. -/
theorem Mixed.stops (h : Mixed cs) : Stops isUnitLetter cs := by
  cases h with
  | nil => exact nofun
  | blank hc =>
      rintro _ ⟨⟩
      rw [Bool.eq_false_iff]
      intro hl
      rw [letter_not_blank hl] at hc
      cases hc
  | part hpart =>
      obtain ⟨d, rest, rfl, hd⟩ := hpart.exists_cons
      rintro _ ⟨⟩
      exact hd.not_letter

/-- A word ends where no letter follows it. Without a word further blanks are passed over. -/
theorem span_unit (hg : Blanks gap) (hw : ∀ c ∈ word, isUnitLetter c = true)
    (hr : Stops isUnitLetter rest) (hr' : Stops isUnitLetter (rest.dropWhile isBlank)) :
    ((gap ++ (word ++ rest)).dropWhile isBlank).span isUnitLetter =
      (word, if word = [] then rest.dropWhile isBlank else rest) := by
  rw [List.dropWhile_append_of_pos hg]
  cases word with
  | nil =>
      rw [List.nil_append, if_pos rfl]
      have hnone : ∀ c ∈ ([] : List Char), isUnitLetter c = true := nofun
      exact span_append hnone hr'
  | cons c word =>
      have hc := letter_not_blank (hw c List.mem_cons_self)
      rw [List.cons_append, List.dropWhile_cons_of_neg (by simp [hc]), if_neg (by simp)]
      exact span_append hw hr

/-- Behind a number a unit is read, and blanks and parts stand after it. -/
theorem After.span_unit (h : After a) : ∃ unit rest,
    (a.dropWhile isBlank).span isUnitLetter = (unit, rest) ∧ IsUnit unit ∧ Mixed rest := by
  obtain @⟨gap, word, rest, hg, hw, tail⟩ := h
  refine ⟨_, _, Duration.span_unit hg hw.letters tail.stops tail.dropBlanks.stops, hw, ?_⟩
  split
  · exact tail.dropBlanks
  · exact tail

theorem part?_some_iff {p : Part} : part? cs = some (p, rest) ↔
    ∃ a, number? cs = some (p.number, a) ∧
      (a.dropWhile isBlank).span isUnitLetter = (p.unit, rest) := by
  rw [part?, Option.map_eq_some_iff]
  constructor
  · rintro ⟨⟨f, a⟩, hf, heq⟩
    cases heq
    exact ⟨a, hf, rfl⟩
  · rintro ⟨a, hf, hspan⟩
    refine ⟨(p.number, a), hf, ?_⟩
    simp only [hspan]

/-- A part that is read with a unit is a part. -/
theorem part?_sound {p : Part} (h : part? cs = some (p, rest)) :
    ∃ number gap, IsNumber number ∧ Blanks gap ∧ cs = number ++ (gap ++ p.unit) ++ rest := by
  obtain ⟨a, hf, hspan⟩ := part?_some_iff.mp h
  obtain ⟨number, hn, rfl⟩ := number?_sound hf
  rw [List.span_eq_takeWhile_dropWhile, Prod.mk.injEq] at hspan
  refine ⟨number, a.takeWhile isBlank, hn, fun _ hc => List.mem_takeWhile_imp hc, ?_⟩
  rw [← hspan.1, ← hspan.2, List.append_assoc, List.append_assoc, List.takeWhile_append_dropWhile,
    List.takeWhile_append_dropWhile]

theorem part?_length {p : Part} (h : part? cs = some (p, rest)) : rest.length < cs.length := by
  obtain ⟨number, gap, hn, -, rfl⟩ := part?_sound h
  obtain ⟨c, tail, rfl, -⟩ := hn.exists_cons
  simp only [List.length_append, List.length_cons]
  omega

/-! ### Readings -/

/-- The numbers that are read in a text, with the milliseconds of their units. -/
inductive Reads : List Char → List (Form × Nat) → Prop
  | nil : Reads [] []
  | blank {c : Char} {cs : List Char} {ns : List (Form × Nat)} (hc : isBlank c = true)
      (tail : Reads cs ns) : Reads (c :: cs) ns
  | part {c : Char} {cs rest : List Char} {p : Part} {factor : Nat} {ns : List (Form × Nat)}
      (hc : isBlank c = false) (here : part? (c :: cs) = some (p, rest))
      (unit : unit? (String.ofList p.unit) = some factor) (tail : Reads rest ns) :
      Reads (c :: cs) ((p.number, factor) :: ns)

variable {ns : List (Form × Nat)}

theorem Reads.mixed (h : Reads cs ns) : Mixed cs := by
  induction h with
  | nil => exact .nil
  | blank hc _ ih => exact .blank hc ih
  | part _ here unit _ ih =>
      obtain ⟨number, gap, hn, hg, heq⟩ := part?_sound here
      rw [heq]
      exact .part (.mk hn hg (by rw [IsUnit, unit]; rfl)) ih

/-- Every text of the grammar is read: taking each part as long as it can be misses none. -/
theorem Mixed.reads (h : Mixed cs) : ∃ ns, Reads cs ns := by
  induction hlength : cs.length using Nat.strong_induction_on generalizing cs with
  | _ length ih =>
    match cs with
    | [] => exact ⟨[], .nil⟩
    | c :: cs =>
      by_cases hc : isBlank c = true
      · obtain ⟨ns, hns⟩ := ih cs.length (hlength ▸ Nat.lt_succ_self _) (h.tail hc) rfl
        exact ⟨ns, .blank hc hns⟩
      · obtain ⟨number, a, hn, ha, heq⟩ := h.exists_number (Bool.eq_false_iff.mpr hc)
        obtain ⟨f, b, hf, hb⟩ := number?_complete hn ha
        obtain ⟨unit, rest, hspan, hunit, hrest⟩ := hb.span_unit
        obtain ⟨factor, hfactor⟩ := Option.isSome_iff_exists.mp hunit
        have hpart : part? (c :: cs) = some (⟨f, unit⟩, rest) :=
          part?_some_iff.mpr ⟨b, heq ▸ hf, hspan⟩
        obtain ⟨ns, hns⟩ := ih rest.length (hlength ▸ part?_length hpart) hrest rfl
        exact ⟨_, .part (Bool.eq_false_iff.mpr hc) hpart hfactor hns⟩

theorem mixed_iff_reads : Mixed cs ↔ ∃ ns, Reads cs ns :=
  ⟨Mixed.reads, fun ⟨_, h⟩ => h.mixed⟩

/-- The sum of milliseconds, added up as doubles. -/
def sumOf (total : Binary64) (ns : List (Form × Nat)) : Binary64 :=
  ns.foldl (fun t n => t.add (n.1.double.mul (Binary64.ofInt n.2))) total

theorem reads_blank_iff (hc : isBlank c = true) : Reads (c :: cs) ns ↔ Reads cs ns := by
  constructor
  · intro h
    cases h with
    | blank _ tail => exact tail
    | part hc' =>
        rw [hc] at hc'
        cases hc'
  · exact .blank hc

theorem reads_part_iff (hc : isBlank c = false) : Reads (c :: cs) ns ↔
    ∃ p rest factor tail, part? (c :: cs) = some (p, rest) ∧
      unit? (String.ofList p.unit) = some factor ∧ Reads rest tail ∧
      ns = (p.number, factor) :: tail := by
  constructor
  · intro h
    cases h with
    | blank hc' =>
        rw [hc] at hc'
        cases hc'
    | part _ here unit tail => exact ⟨_, _, _, _, here, unit, tail, rfl⟩
  · rintro ⟨p, rest, factor, tail, here, unit, htail, rfl⟩
    exact .part hc here unit htail

/-- What is read in a text is settled by the text. -/
theorem Reads.unique {ns' : List (Form × Nat)} (h : Reads cs ns) (h' : Reads cs ns') :
    ns' = ns := by
  induction h generalizing ns' with
  | nil =>
      cases h'
      rfl
  | blank hc _ ih => exact ih ((reads_blank_iff hc).mp h')
  | part hc here unit _ ih =>
      obtain ⟨p, rest, ms, tail, here', unit', htail, rfl⟩ := (reads_part_iff hc).mp h'
      cases here.symm.trans here'
      cases unit.symm.trans unit'
      rw [ih htail]

theorem sumParts_nil_iff {source : Value} {total t : Binary64} (fuel : Nat) :
    sumParts source fuel total [] = .ok t ↔ ∃ ns, Reads [] ns ∧ t = sumOf total ns := by
  have hsum : sumParts source fuel total [] = .ok total := by cases fuel <;> rfl
  rw [hsum]
  constructor
  · rintro ⟨⟩
    exact ⟨[], .nil, rfl⟩
  · rintro ⟨ns, hns, rfl⟩
    cases hns
    rfl

/-- The parts of a text have a sum just if all of it is read. -/
theorem sumParts_ok_iff {source : Value} {fuel : Nat} {total t : Binary64}
    (h : cs.length ≤ fuel) :
    sumParts source fuel total cs = .ok t ↔ ∃ ns, Reads cs ns ∧ t = sumOf total ns := by
  induction fuel generalizing cs total with
  | zero =>
      obtain rfl := List.length_eq_zero_iff.mp (Nat.le_zero.mp h)
      exact sumParts_nil_iff 0
  | succ fuel ih =>
    match cs with
    | [] => exact sumParts_nil_iff (fuel + 1)
    | c :: cs =>
      have hcs : cs.length ≤ fuel := Nat.le_of_succ_le_succ h
      rw [sumParts]
      by_cases hc : isBlank c = true
      · simp only [if_pos hc, ih hcs, reads_blank_iff hc]
      · rw [if_neg hc]
        simp only [reads_part_iff (Bool.eq_false_iff.mpr hc)]
        cases hpart : part? (c :: cs) with
        | none => simp
        | some found =>
            obtain ⟨p, rest⟩ := found
            have hrest : rest.length ≤ fuel := by
              have := part?_length hpart
              rw [List.length_cons] at this
              omega
            cases hunit : unit? (String.ofList p.unit) with
            | none => simp [hunit]
            | some factor =>
                simp only [hunit, ih hrest]
                constructor
                · rintro ⟨ns, hns, rfl⟩
                  exact ⟨_, ⟨p, rest, factor, ns, rfl, hunit, hns, rfl⟩, rfl⟩
                · rintro ⟨_, ⟨_, _, factor', tail, heq, hunit', htail, rfl⟩, rfl⟩
                  cases heq
                  cases hunit.symm.trans hunit'
                  exact ⟨tail, htail, rfl⟩

/-! ### Texts with a sum -/

variable {source : Value} {s : List Char}

/-- A duration comes to the sum of the numbers that are read in it. -/
theorem ofText_of_reads (h : IsDuration (canonical s)) (hr : Reads (canonical s) ns) :
    ofText source s = (rounded (sumOf (Binary64.zero false) ns)).mapError .fault := by
  have hblank : (canonical s).all isBlank = false := by
    rw [Bool.eq_false_iff]
    exact fun hall => h.not_blanks (List.all_eq_true.mp hall)
  have hne : (canonical s).isEmpty = false := by
    cases hs : canonical s with
    | nil => rw [hs] at hblank; cases hblank
    | cons c cs => rfl
  have hsum : sumParts source ((canonical s).length + 1) (Binary64.zero false) (canonical s) =
      .ok (sumOf (Binary64.zero false) ns) :=
    (sumParts_ok_iff (Nat.le_succ _)).mpr ⟨ns, hr, rfl⟩
  simp only [ofText, hne, hblank, hsum, Bool.false_eq_true, if_false]

/-- A text that is no duration is refused. -/
theorem ofText_of_not (h : ¬ IsDuration (canonical s)) :
    ∃ m, ofText source s = .error (.mistake m) := by
  rw [isDuration_iff, mixed_iff_reads, not_and_not_right] at h
  simp only [ofText]
  split
  · exact ⟨_, rfl⟩
  · split
    · exact ⟨_, rfl⟩
    next hblank =>
      cases hparts : sumParts source ((canonical s).length + 1) (Binary64.zero false)
          (canonical s) with
      | error m => exact ⟨m, rfl⟩
      | ok t =>
          obtain ⟨ns, hns, -⟩ := (sumParts_ok_iff (Nat.le_succ _)).mp hparts
          exact absurd (List.all_eq_true.mpr (h ⟨ns, hns⟩)) hblank

end TableAudit.Duration
