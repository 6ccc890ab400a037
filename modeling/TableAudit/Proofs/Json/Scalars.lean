import TableAudit.Json.Read
import TableAudit.Json.Write
import TableAudit.Proofs.Number.Numeral

/-!
# Numbers and strings in JSON

The reader of JSON takes a numeral from the front of a text as the integer or the double that it
writes, and a written string as its characters: every character is read back from its escape,
those beyond the first plane from two units.
-/

namespace TableAudit.Json

open TableAudit.Number (Numeral Stops span_append)
open TableAudit.Number.Numeral (scale)

variable {n : Numeral} {rest : List Char}

/-- A character with which the text of a number could go on. -/
def continues (c : Char) : Bool :=
  c.isDigit || c == '.' || c == 'e' || c == 'E'

theorem stops_digits (hr : Stops continues rest) : Stops (·.isDigit) rest := by
  intro c hc
  have := hr c hc
  simp only [continues, Bool.or_eq_false_iff] at this
  exact this.1.1.1

theorem spanDigits_append {ds : List Char} (h : ∀ c ∈ ds, c.isDigit = true)
    (hr : Stops (·.isDigit) rest) : spanDigits (ds ++ rest) = (ds, rest) :=
  span_append h hr

theorem spanExponent_scale {x : Option (Bool × List Char)}
    (h : ∀ y ∈ x, y.2 ≠ [] ∧ ∀ c ∈ y.2, c.isDigit = true) (hr : Stops continues rest) :
    spanExponent (scale x ++ rest) = (x.map Numeral.power, rest) := by
  cases x with
  | none =>
      cases rest with
      | nil => rfl
      | cons c cs =>
          have hc := hr c rfl
          simp only [continues, Bool.or_eq_false_iff, beq_eq_false_iff_ne] at hc
          rw [scale, List.nil_append, spanExponent, if_neg (by simp [hc])]
          rfl
  | some signed =>
      obtain ⟨negative, ds⟩ := signed
      obtain ⟨hne, hall⟩ := h _ rfl
      have hsign : spanSign ((if negative then '-' else '+') :: (ds ++ rest)) =
          (negative, ds ++ rest) := by
        cases negative <;> rfl
      simp only [scale, List.cons_append, spanExponent, true_or, if_true]
      rw [hsign]
      simp only [spanDigits_append hall (stops_digits hr)]
      obtain ⟨d, ds, rfl⟩ := List.exists_cons_of_ne_nil hne
      rfl

theorem spanFraction_tail (h : n.Standard) (hr : Stops continues rest) :
    spanFraction (n.tail ++ rest) = (n.places, scale n.exponent ++ rest) := by
  match hp : n.places with
  | none =>
      have hstop : Stops (· == '.') (scale n.exponent ++ rest) := by
        refine Numeral.stops_scale (by decide) (fun c hc => ?_) _
        have := hr c hc
        simp only [continues, Bool.or_eq_false_iff] at this
        exact this.1.1.2
      have hrest : n.tail = scale n.exponent := by rw [Numeral.tail, hp]; rfl
      rw [hrest]
      unfold spanFraction
      split
      next heq =>
        rw [heq] at hstop
        exact absurd (hstop '.' rfl) (by decide)
      next => rfl
  | some places =>
      obtain ⟨hne, hall⟩ := h.places places hp
      have hrest : n.tail ++ rest = '.' :: (places ++ (scale n.exponent ++ rest)) := by
        rw [Numeral.tail, hp, List.append_assoc]
        rfl
      have hstop : Stops (·.isDigit) (scale n.exponent ++ rest) :=
        Numeral.stops_scale (by decide) (stops_digits hr) _
      rw [hrest]
      simp only [spanFraction, spanDigits_append hall hstop]

/-- The sign of a number at the front and the rest. -/
def spanMinus (cs : List Char) : Bool × List Char :=
  match cs with
  | '-' :: rest => (true, rest)
  | _ => (false, cs)

/-- The digits before the point at the front and the rest; a zero stands alone. -/
def spanWhole (cs : List Char) : List Char × List Char :=
  match cs with
  | '0' :: rest => (['0'], rest)
  | _ => spanDigits cs

theorem spanMinus_chars (h : n.Standard) (rest : List Char) :
    spanMinus (n.chars ++ rest) = (n.negative, n.whole ++ (n.tail ++ rest)) := by
  obtain ⟨c, cs, hcs, hc⟩ := h.head (n.tail ++ rest)
  rw [Numeral.chars, List.append_assoc, List.append_assoc, hcs]
  cases n.negative with
  | true => rfl
  | false =>
      simp only [Bool.false_eq_true, if_false, List.nil_append]
      unfold spanMinus
      split
      next heq => exact absurd hc (by rw [(List.cons.inj heq).1]; decide)
      next => rfl

theorem spanWhole_append (h : n.Standard) (hr : Stops (·.isDigit) rest) :
    spanWhole (n.whole ++ rest) = (n.whole, rest) := by
  unfold spanWhole
  split
  next heq =>
    have hzero : n.whole = ['0'] := by
      obtain ⟨c, cs, hcs⟩ := List.exists_cons_of_ne_nil h.whole
      rw [hcs] at heq
      exact h.leading (by rw [hcs, (List.cons.inj heq).1]; rfl)
    rw [hzero] at heq ⊢
    rw [← (List.cons.inj heq).2]
    rfl
  next => exact spanDigits_append h.digits hr

theorem readNumber_eq (cs : List Char) : readNumber cs =
    let w := spanWhole (spanMinus cs).2
    let f := spanFraction w.2
    let e := spanExponent f.2
    if w.1.isEmpty then .error (.malformed .value cs.length)
    else
      match f.1, e.1 with
      | none, none =>
        if digitLimit < w.1.length then .error .digitLimit
        else
          let n : Int := Text.digitsValue w.1
          .ok (.int (if (spanMinus cs).1 then -n else n), e.2)
      | _, _ =>
        .ok (.float (Number.Form.double ⟨(spanMinus cs).1, w.1, f.1, e.1⟩), e.2) :=
  rfl

/-- The reader of JSON numbers sees the parts of a numeral. -/
theorem readNumber_chars (h : n.Standard) (hr : Stops continues rest) :
    readNumber (n.chars ++ rest) =
      match n.places, n.exponent with
      | none, none =>
        if digitLimit < n.whole.length then .error .digitLimit
        else .ok (.int (if n.negative then -(Text.digitsValue n.whole : Int)
          else Text.digitsValue n.whole), rest)
      | _, _ => .ok (.float n.form.double, rest) := by
  have hstop : Stops (·.isDigit) (n.tail ++ rest) :=
    Numeral.stops_tail (by decide) (by decide) (stops_digits hr) n
  have hempty : n.whole.isEmpty = false := List.isEmpty_eq_false_iff.mpr h.whole
  rw [readNumber_eq]
  simp only [spanMinus_chars h, spanWhole_append h hstop, spanFraction_tail h hr,
    spanExponent_scale h.exponent hr, hempty]
  match hp : n.places, hx : n.exponent with
  | none, none => rfl
  | none, some _ => simp only [Numeral.form, hp, hx]; rfl
  | some _, none => simp only [Numeral.form, hp, hx]; rfl
  | some _, some _ => simp only [Numeral.form, hp, hx]; rfl

/-! ### Strings -/

variable {c : Char} {k fuel start : Nat} {ascii : Bool}

theorem hex_four (h : k < 65536) : Text.hex 4 k = [Nat.digitChar (k / 4096),
    Nat.digitChar (k / 256 % 16), Nat.digitChar (k / 16 % 16), Nat.digitChar (k % 16)] := by
  have hstep {i : Nat} (hi : 16 ≤ i) :
      Nat.toDigits 16 i = Nat.toDigits 16 (i / 16) ++ [Nat.digitChar (i % 16)] :=
    Nat.toDigits_of_base_le (by decide) hi
  have hlast {i : Nat} (hi : i < 16) : Nat.toDigits 16 i = [Nat.digitChar i] :=
    Nat.toDigits_of_lt_base hi
  simp only [Text.hex]
  by_cases h1 : k < 16
  · rw [hlast h1, show k / 4096 = 0 by omega, show k / 256 % 16 = 0 by omega,
      show k / 16 % 16 = 0 by omega, show k % 16 = k by omega]
    rfl
  by_cases h2 : k < 256
  · rw [hstep (by omega), hlast (by omega), show k / 4096 = 0 by omega,
      show k / 256 % 16 = 0 by omega, show k / 16 % 16 = k / 16 by omega]
    rfl
  by_cases h3 : k < 4096
  · rw [hstep (by omega), hstep (by omega), hlast (by omega), show k / 4096 = 0 by omega,
      show k / 16 / 16 = k / 256 % 16 by omega]
    rfl
  · rw [hstep (by omega), hstep (by omega), hstep (by omega), hlast (by omega),
      show k / 16 / 16 / 16 = k / 4096 by omega, show k / 16 / 16 % 16 = k / 256 % 16 by omega]
    rfl

theorem hexUnit?_hex (h : k < 65536) : hexUnit? (Text.hex 4 k) = some k := by
  have hvalue : ∀ i < 16, hexValue? (Nat.digitChar i) = some i := by decide
  rw [hex_four h]
  simp only [hexUnit?, hvalue (k / 4096) (by omega), hvalue _ (Nat.mod_lt _ (by decide : 0 < 16)),
    Option.bind_eq_bind, Option.bind_some, Option.some.injEq]
  omega

theorem length_hex (h : k < 65536) : (Text.hex 4 k).length = 4 := by
  rw [hex_four h]
  rfl

/-- The unit of an escape, with the characters of the escape cut off. -/
theorem hex_parts (h : k < 65536) (hr : rest ≠ []) : ¬ (Text.hex 4 k ++ rest).length < 5 ∧
    hexUnit? ((Text.hex 4 k ++ rest).take 4) = some k ∧ (Text.hex 4 k ++ rest).drop 4 = rest := by
  have hlength := length_hex h
  have hpos := List.length_pos_iff.mpr hr
  refine ⟨?_, ?_, ?_⟩
  · rw [List.length_append]
    omega
  · rw [List.take_left' hlength, hexUnit?_hex h]
  · exact List.drop_left' hlength

theorem scalar_range (c : Char) :
    c.toNat < 0x110000 ∧ ¬ (0xD800 ≤ c.toNat ∧ c.toNat < 0xE000) := by
  have hvalid := c.valid
  simp only [UInt32.isValidChar, Nat.isValidChar] at hvalid
  unfold Char.toNat
  omega

/-- A character in an escape of one unit. -/
theorem unicodeEscape_unit (h : c.toNat < 65536) (hr : rest ≠ []) :
    unicodeEscape (Text.hex 4 c.toNat ++ rest) = .ok (c, rest) := by
  obtain ⟨hlength, hunit, hdrop⟩ := hex_parts h hr
  have hvalid := (scalar_range c).2
  simp only [unicodeEscape, if_neg hlength, hunit, hdrop]
  rw [if_neg (by omega), charOfUnit, if_neg hvalid, Char.ofNat_toNat]

/-- A character in an escape of two units. -/
theorem unicodeEscape_pair (h : 65536 ≤ c.toNat) (hr : rest ≠ []) :
    unicodeEscape (Text.hex 4 (0xD800 + (c.toNat - 0x10000) / 0x400) ++
      (unitEscape (0xDC00 + (c.toNat - 0x10000) % 0x400) ++ rest)) = .ok (c, rest) := by
  obtain ⟨i, hi⟩ : ∃ i, i = c.toNat - 0x10000 := ⟨_, rfl⟩
  have hsize := (scalar_range c).1
  obtain ⟨hlength, hunit, hdrop⟩ := hex_parts (k := 0xD800 + i / 0x400) (by omega)
    (show unitEscape (0xDC00 + i % 0x400) ++ rest ≠ [] by simp [unitEscape])
  obtain ⟨hlength', hunit', hdrop'⟩ := hex_parts (k := 0xDC00 + i % 0x400) (by omega) hr
  have hlow : lowUnit? (unitEscape (0xDC00 + i % 0x400) ++ rest) =
      .ok (some (0xDC00 + i % 0x400, rest)) := by
    simp only [unitEscape, List.cons_append, lowUnit?, if_neg hlength', hunit', hdrop']
  rw [← hi]
  simp only [unicodeEscape, if_neg hlength, hunit, hdrop, hlow]
  have hjoined : 0x10000 + (0xD800 + i / 0x400 - 0xD800) * 0x400 +
      (0xDC00 + i % 0x400 - 0xDC00) = c.toNat := by omega
  rw [if_pos (by omega), if_pos (by omega), hjoined, Char.ofNat_toNat]

theorem readString_letter {e : Char} (he : escapeLetter? e = some c) (hu : e ≠ 'u') :
    readString start (fuel + 1) ('\\' :: e :: rest) =
      (readString start fuel rest).map fun r => (c :: r.1, r.2) := by
  rw [readString, if_neg (by decide), if_pos rfl, he]
  · cases readString start fuel rest <;> rfl
  · exact hu

theorem readString_unicode {cs : List Char} (he : unicodeEscape cs = .ok (c, rest)) :
    readString start (fuel + 1) ('\\' :: 'u' :: cs) =
      (readString start fuel rest).map fun r => (c :: r.1, r.2) := by
  rw [readString, if_neg (by decide), if_pos rfl]
  simp only [he]
  change (readString start fuel rest >>= _) = _
  cases readString start fuel rest <;> rfl

theorem readString_plain (hq : c ≠ '"') (hb : c ≠ '\\') (hc : ¬ c.toNat < 0x20) :
    readString start (fuel + 1) (c :: rest) =
      (readString start fuel rest).map fun r => (c :: r.1, r.2) := by
  rw [readString.eq_def]
  simp only [if_neg hq, if_neg hb, if_neg hc]
  cases readString start fuel rest <;> rfl

/-- The four ways of writing a character: a letter behind a backslash, an escape of one unit or of
two, or as it is. -/
theorem escapedChar_cases (ascii : Bool) (c : Char) :
    (∃ e, e ≠ 'u' ∧ escapeLetter? e = some c ∧ escapedChar ascii c = ['\\', e]) ∨
    (c.toNat < 65536 ∧ escapedChar ascii c = unitEscape c.toNat) ∨
    (65536 ≤ c.toNat ∧ escapedChar ascii c =
      unitEscape (0xD800 + (c.toNat - 0x10000) / 0x400) ++
        unitEscape (0xDC00 + (c.toNat - 0x10000) % 0x400)) ∨
    (c ≠ '"' ∧ c ≠ '\\' ∧ ¬ c.toNat < 0x20 ∧ escapedChar ascii c = [c]) := by
  by_cases hmark : c = '"' ∨ c = '\\'
  · obtain rfl | rfl := hmark
    · exact .inl ⟨_, by decide, rfl, rfl⟩
    · exact .inl ⟨_, by decide, rfl, rfl⟩
  obtain ⟨hq, hb⟩ := not_or.mp hmark
  by_cases hcontrol : c = '\n' ∨ c = '\r' ∨ c = '\t' ∨ c = '\x0c' ∨ c = '\x08'
  · left
    obtain rfl | rfl | rfl | rfl | rfl := hcontrol
    · exact ⟨'n', by decide, rfl, rfl⟩
    · exact ⟨'r', by decide, rfl, rfl⟩
    · exact ⟨'t', by decide, rfl, rfl⟩
    · exact ⟨'f', by decide, rfl, rfl⟩
    · exact ⟨'b', by decide, rfl, rfl⟩
  right
  simp only [not_or] at hcontrol
  simp only [escapedChar, if_neg hmark, if_neg hcontrol.1, if_neg hcontrol.2.1,
    if_neg hcontrol.2.2.1, if_neg hcontrol.2.2.2.1, if_neg hcontrol.2.2.2.2]
  split
  next h => exact .inl ⟨by omega, rfl⟩
  next hc =>
    split
    next =>
      split
      next h => exact .inl ⟨h, rfl⟩
      next h => exact .inr (.inl ⟨by omega, rfl⟩)
    next => exact .inr (.inr ⟨hq, hb, hc, rfl⟩)

/-- A written character is read before the rest of the string. -/
theorem readString_escapedChar (hr : rest ≠ []) :
    readString start (fuel + 1) (escapedChar ascii c ++ rest) =
      (readString start fuel rest).map fun r => (c :: r.1, r.2) := by
  obtain ⟨e, hu, he, hw⟩ | ⟨h, hw⟩ | ⟨h, hw⟩ | ⟨hq, hb, hc, hw⟩ := escapedChar_cases ascii c
  · rw [hw]
    exact readString_letter he hu
  · rw [hw]
    exact readString_unicode (unicodeEscape_unit h hr)
  · rw [hw, List.append_assoc, unitEscape, List.cons_append, List.cons_append]
    exact readString_unicode (unicodeEscape_pair h hr)
  · rw [hw]
    exact readString_plain hq hb hc

/-- A written string is read as its text. -/
theorem readString_chars (s : List Char) (hf : s.length < fuel) :
    readString start fuel (s.flatMap (escapedChar ascii) ++ '"' :: rest) = .ok (s, rest) := by
  induction s generalizing fuel with
  | nil =>
      obtain ⟨fuel, rfl⟩ := Nat.exists_eq_add_one_of_ne_zero (Nat.ne_of_gt hf)
      rfl
  | cons c s ih =>
      obtain ⟨fuel, rfl⟩ := Nat.exists_eq_add_one_of_ne_zero (Nat.ne_of_gt (Nat.zero_lt_of_lt hf))
      rw [List.flatMap_cons, List.append_assoc, readString_escapedChar (by simp),
        ih (Nat.lt_of_succ_lt_succ hf)]
      rfl

theorem escapedChar_ne_nil (ascii : Bool) (c : Char) : escapedChar ascii c ≠ [] := by
  unfold escapedChar
  repeat' split
  all_goals exact List.cons_ne_nil _ _

theorem length_escaped (ascii : Bool) (s : List Char) :
    s.length ≤ (s.flatMap (escapedChar ascii)).length := by
  induction s with
  | nil => exact Nat.le_refl 0
  | cons c s ih =>
      have := List.length_pos_iff.mpr (escapedChar_ne_nil ascii c)
      rw [List.flatMap_cons, List.length_append, List.length_cons]
      omega

end TableAudit.Json
