import TableAudit.Proofs.Number.Shortest

/-!
# Numerals

A numeral is a number as it is written: a sign, digits without a zero in front, digits after a
point, and an exponent. The strict reader of number texts sees these parts in it. Integers and
doubles are written as numerals, and a double's numeral is read as the double.
-/

namespace TableAudit.Number

open TableAudit.Text (isDecimalDigit digitsValue)

variable {c : Char} {ds rest : List Char} {p : Char → Bool}

/-! ### Digits -/

theorem digitsValue_append (as bs : List Char) :
    digitsValue (as ++ bs) = digitsValue as * 10 ^ bs.length + digitsValue bs := by
  have hfold (n : Nat) : bs.foldl (fun n c => 10 * n + (Text.digitValue? c).getD 0) n =
      n * 10 ^ bs.length + digitsValue bs := by
    induction bs generalizing n with
    | nil => simp [digitsValue]
    | cons c bs ih =>
        have hcons : digitsValue (c :: bs) =
            (10 * 0 + (Text.digitValue? c).getD 0) * 10 ^ bs.length + digitsValue bs := ih _
        rw [List.foldl_cons, ih, hcons, List.length_cons]
        ring
  rw [digitsValue, List.foldl_append, hfold]
  rfl

theorem digitsValue_zeros (n : Nat) : digitsValue (List.replicate n '0') = 0 := by
  induction n with
  | zero => rfl
  | succ n ih =>
      rw [List.replicate_succ', digitsValue_append, ih]
      rfl

/-- Only the digits of zero begin with a zero. -/
theorem toDigits_head {n : Nat} (h : (Nat.toDigits 10 n).head? = some '0') : n = 0 := by
  induction n using Nat.strongRecOn with
  | ind n ih =>
      obtain hn | hn := Nat.lt_or_ge n 10
      · have hall : ∀ k < 10, (Nat.toDigits 10 k).head? = some '0' → k = 0 := by decide
        exact hall n hn h
      · rw [Nat.toDigits_of_base_le (by decide) hn, List.head?_append] at h
        obtain ⟨c, ds, hds⟩ := List.exists_cons_of_ne_nil
          (Nat.toDigits_ne_nil (n := n / 10) (b := 10))
        have := ih (n / 10) (by omega) (by rw [hds] at h ⊢; exact h)
        omega

theorem ne_of_isDigit {d : Char} (hc : c.isDigit = true) (hd : d.isDigit = false) : d ≠ c := by
  rintro rfl
  rw [hc] at hd
  cases hd

/-! ### Numerals -/

/-- A number as it is written. -/
structure Numeral where
  negative : Bool
  whole : List Char
  places : Option (List Char)
  exponent : Option (Bool × List Char)

/-- A finite double is kept as every operation leaves it. -/
def Binary64.IsDouble : Binary64 → Prop
  | .finite _ m e => IsNormal m e
  | _ => True

namespace Numeral

variable {n : Numeral}

/-- The exponent after its letter, if there is one. -/
def scale : Option (Bool × List Char) → List Char
  | none => []
  | some (negative, ds) => 'e' :: (if negative then '-' else '+') :: ds

/-- What follows the digits before the point. -/
def tail (n : Numeral) : List Char :=
  (n.places.elim [] ('.' :: ·)) ++ scale n.exponent

/-- The text of a numeral. -/
def chars (n : Numeral) : List Char :=
  (if n.negative then ['-'] else []) ++ (n.whole ++ n.tail)

/-- The value of an exponent. -/
def power : Bool × List Char → Int
  | (negative, ds) => if negative then -(digitsValue ds : Int) else digitsValue ds

/-- The parts that a reader of numbers sees. -/
def form (n : Numeral) : Form :=
  ⟨n.negative, n.whole, n.places, n.exponent.map power⟩

/-- The numeral has digits wherever it must, and no zero before its first digit. -/
structure Standard (n : Numeral) : Prop where
  whole : n.whole ≠ []
  leading : n.whole.head? = some '0' → n.whole = ['0']
  digits : ∀ c ∈ n.whole, c.isDigit = true
  places : ∀ ds ∈ n.places, ds ≠ [] ∧ ∀ c ∈ ds, c.isDigit = true
  exponent : ∀ x ∈ n.exponent, x.2 ≠ [] ∧ ∀ c ∈ x.2, c.isDigit = true

/-- No letter or point is a digit. -/
theorem stops_scale (hp : p 'e' = false) (hr : Stops p rest) (x : Option (Bool × List Char)) :
    Stops p (scale x ++ rest) := by
  match x with
  | none => exact hr
  | some (negative, ds) =>
      rintro c ⟨⟩
      exact hp

theorem stops_tail (hp : p 'e' = false) (hpoint : p '.' = false) (hr : Stops p rest) (n : Numeral) :
    Stops p (n.tail ++ rest) := by
  match h : n.places with
  | none =>
      rw [tail, h]
      exact stops_scale hp hr n.exponent
  | some ds =>
      rw [tail, h]
      rintro c ⟨⟩
      exact hpoint

theorem scale_ne_point (x : Option (Bool × List Char)) (cs : List Char) : scale x ≠ '.' :: cs := by
  match x with
  | none => nofun
  | some (negative, ds) =>
      intro h
      exact absurd (List.cons.inj h).1 (by decide)

/-- The first character of a numeral after its sign is a digit. -/
theorem Standard.head (h : n.Standard) (rest : List Char) :
    ∃ c cs, n.whole ++ rest = c :: cs ∧ c.isDigit = true := by
  obtain ⟨c, cs, hwhole⟩ := List.exists_cons_of_ne_nil h.whole
  exact ⟨c, cs ++ rest, by rw [hwhole, List.cons_append],
    h.digits c (hwhole ▸ List.mem_cons_self)⟩

/-- A numeral begins with a digit or with a minus sign and a digit. -/
theorem Standard.first (h : n.Standard) (rest : List Char) : ∃ c cs, n.chars ++ rest = c :: cs ∧
    (c.isDigit = true ∨ c = '-' ∧ ∃ d ds, cs = d :: ds ∧ d.isDigit = true) := by
  obtain ⟨c, cs, hcs, hc⟩ := h.head (n.tail ++ rest)
  rw [chars, List.append_assoc, List.append_assoc, hcs]
  cases n.negative with
  | true => exact ⟨'-', c :: cs, rfl, Or.inr ⟨rfl, c, cs, rfl, hc⟩⟩
  | false => exact ⟨c, cs, rfl, Or.inl hc⟩

theorem exponent?_scale {x : Option (Bool × List Char)}
    (h : ∀ y ∈ x, y.2 ≠ [] ∧ ∀ c ∈ y.2, c.isDigit = true) :
    exponent? (scale x) = some (x.map power) := by
  match x with
  | none => rfl
  | some (negative, ds) =>
      obtain ⟨hne, hall⟩ := h _ rfl
      have hsign : spanSign ((if negative then '-' else '+') :: ds) = (negative, ds) := by
        cases negative <;> rfl
      have hdigits : ds.all isDecimalDigit = true :=
        List.all_eq_true.mpr fun c hc => isDecimalDigit_of_isDigit (hall c hc)
      have hempty : ds.isEmpty = false := List.isEmpty_eq_false_iff.mpr hne
      simp only [scale, exponent?, hsign, hdigits, hempty]
      rfl

/-- The strict reader sees the parts of a numeral. -/
theorem form?_chars (h : n.Standard) : form? n.chars = some n.form := by
  have hsign : spanSign n.chars = (n.negative, n.whole ++ n.tail) := by
    obtain ⟨c, cs, hcs, hc⟩ := h.head n.tail
    rw [chars, hcs]
    cases n.negative with
    | true => rfl
    | false =>
        simp only [Bool.false_eq_true, if_false, List.nil_append]
        unfold spanSign
        split <;> simp_all
  have hspan (rest : List Char) (hr : Stops isDecimalDigit rest) :
      (n.whole ++ rest).span isDecimalDigit = (n.whole, rest) :=
    span_append (fun c hc => isDecimalDigit_of_isDigit (h.digits c hc)) hr
  have hempty : n.whole.isEmpty = false := List.isEmpty_eq_false_iff.mpr h.whole
  have hexponent := exponent?_scale h.exponent
  have hnil (q : Char → Bool) : Stops q [] := fun c hc => by cases hc
  have hscale := stops_scale (p := isDecimalDigit) (by decide) (hnil _) n.exponent
  have htail := stops_tail (p := isDecimalDigit) (by decide) (by decide) (hnil _) n
  rw [List.append_nil] at hscale htail
  simp only [form?, hsign, hspan n.tail htail, hempty]
  cases hp : n.places with
  | none =>
      have hrest : n.tail = scale n.exponent := by rw [tail, hp]; rfl
      rw [hrest]
      split
      next heq => exact absurd heq (scale_ne_point n.exponent _)
      next =>
        rw [hexponent, form, hp]
        rfl
  | some places =>
      obtain ⟨hne, hall⟩ := h.places places hp
      have hrest : n.tail = '.' :: (places ++ scale n.exponent) := by rw [tail, hp]; rfl
      rw [hrest]
      simp only [span_append (fun c hc => isDecimalDigit_of_isDigit (hall c hc)) hscale, hexponent]
      rw [form, hp]
      rfl

/-- The exact number that a numeral writes, without its sign. -/
def value (n : Numeral) : ℚ :=
  digitsValue (n.whole ++ n.places.getD []) *
    10 ^ ((n.exponent.map power).getD 0 - (n.places.getD []).length)

theorem double_form (n : Numeral) : n.form.double =
    Binary64.ofDecimal n.negative (digitsValue (n.whole ++ n.places.getD []))
      ((n.exponent.map power).getD 0 - (n.places.getD []).length) :=
  rfl

/-! ### Integers -/

/-- The numeral of an integer. -/
def ofInt (n : Int) : Numeral :=
  ⟨n < 0, Nat.toDigits 10 n.natAbs, none, none⟩

theorem standard_ofInt (n : Int) : (ofInt n).Standard := by
  refine ⟨Nat.toDigits_ne_nil, fun h => ?_, fun c => isDigit_of_mem_toDigits, nofun, nofun⟩
  rw [ofInt, toDigits_head h]
  rfl

theorem chars_ofInt (n : Int) : (ofInt n).chars = (toString n).toList := by
  rw [toString_toList, chars, tail, ofInt]
  simp only [Option.elim_none, scale, List.append_nil, decide_eq_true_eq]

/-! ### Doubles -/

variable {s : Bool}

/-- The numeral has a point or an exponent, and writes a decimal with a sign. -/
structure Writes (n : Numeral) (s : Bool) (cs : List Char) (x : ℚ) : Prop where
  standard : n.Standard
  negative : n.negative = s
  chars : n.chars = (if s then ['-'] else []) ++ cs
  fractional : n.form.isInteger = false
  value : n.value = x

theorem isDigit_of_mem_zeros {k : Nat} (hc : c ∈ List.replicate k '0') : c.isDigit = true := by
  rw [(List.mem_replicate.mp hc).2]
  rfl

section Digits

variable (hne : ds ≠ []) (hd : ∀ c ∈ ds, c.isDigit = true) (hhead : ds.head? ≠ some '0') (s : Bool)
include hne hd

/-- Digits after a point and zeros. -/
theorem below_writes (k : Nat) :
    (⟨s, ['0'], some (List.replicate k '0' ++ ds), none⟩ : Numeral).Writes s
      ('0' :: '.' :: (List.replicate k '0' ++ ds))
      (digitsValue ds * 10 ^ (-((k : Int) + ds.length))) where
  standard := by
    refine ⟨by simp, by simp, by simp, ?_, nofun⟩
    rintro _ ⟨⟩
    exact ⟨by simp [hne], fun c hc =>
      (List.mem_append.mp hc).elim isDigit_of_mem_zeros (hd c)⟩
  negative := rfl
  chars := by simp [chars, tail, scale]
  fractional := rfl
  value := by
    simp only [value, Option.getD_some, Option.map_none, Option.getD_none, digitsValue_append,
      digitsValue_zeros, List.length_append, List.length_replicate]
    simp [digitsValue, Text.digitValue?]

include hhead

/-- Digits before zeros and a point. -/
theorem whole_writes (k : Nat) :
    (⟨s, ds ++ List.replicate k '0', some ['0'], none⟩ : Numeral).Writes s
      (ds ++ List.replicate k '0' ++ ['.', '0']) (digitsValue ds * 10 ^ (k : Int)) where
  standard := by
    refine ⟨by simp [hne], fun h => ?_, fun c hc => ?_, by simp, nofun⟩
    · rw [List.head?_append_of_ne_nil _ hne] at h
      exact absurd h hhead
    · exact (List.mem_append.mp hc).elim (hd c) isDigit_of_mem_zeros
  negative := rfl
  chars := by simp [chars, tail, scale]
  fractional := rfl
  value := by
    simp only [value, Option.getD_some, Option.map_none, Option.getD_none, digitsValue_append,
      digitsValue_zeros, List.length_replicate, show digitsValue ['0'] = 0 by decide]
    push_cast
    rw [zpow_natCast, add_zero, add_zero, mul_assoc]
    norm_num

/-- Digits with a point among them. -/
theorem pointed_writes {k : Nat} (hk : 0 < k) (hlt : k < ds.length) :
    (⟨s, ds.take k, some (ds.drop k), none⟩ : Numeral).Writes s (ds.take k ++ '.' :: ds.drop k)
      (digitsValue ds * 10 ^ ((k : Int) - ds.length)) where
  standard := by
    refine ⟨by simp [hne]; omega, fun h => ?_, fun c hc => hd c (List.mem_of_mem_take hc), ?_,
      nofun⟩
    · rw [List.head?_take, if_neg hk.ne'] at h
      exact absurd h hhead
    · rintro _ ⟨⟩
      exact ⟨by simp; omega, fun c hc => hd c (List.mem_of_mem_drop hc)⟩
  negative := rfl
  chars := by simp [chars, tail, scale]
  fractional := rfl
  value := by
    simp only [value, Option.getD_some, Option.map_none, Option.getD_none, List.take_append_drop,
      List.length_drop]
    congr 2
    omega

/-- Digits with a point after the first and an exponent. -/
theorem scientific_writes (x : Int) : ∃ n : Numeral, n.Writes s (Binary64.scientific ds x)
    (digitsValue ds * 10 ^ (x + 1 - ds.length)) := by
  obtain ⟨d, places, rfl⟩ := List.exists_cons_of_ne_nil hne
  obtain ⟨zeros, hzeros⟩ : ∃ k, List.replicate (2 - (Nat.toDigits 10 x.natAbs).length) '0' =
      List.replicate k '0' := ⟨_, rfl⟩
  have hexponent :
      ∀ y ∈ some (decide (x < 0), List.replicate zeros '0' ++ Nat.toDigits 10 x.natAbs),
        y.2 ≠ [] ∧ ∀ c ∈ y.2, c.isDigit = true := by
    rintro _ ⟨⟩
    exact ⟨by simp [Nat.toDigits_ne_nil], fun c hc =>
      (List.mem_append.mp hc).elim isDigit_of_mem_zeros isDigit_of_mem_toDigits⟩
  have hpower :
      power (decide (x < 0), List.replicate zeros '0' ++ Nat.toDigits 10 x.natAbs) = x := by
    simp only [power, digitsValue_append, digitsValue_zeros, digitsValue_toDigits, zero_mul,
      zero_add, decide_eq_true_eq]
    split <;> omega
  have hdigit : d.isDigit = true := hd d List.mem_cons_self
  have hleading : d ≠ '0' := by simpa using hhead
  have hplaces : ∀ c ∈ places, c.isDigit = true := fun c hc => hd c (List.mem_cons_of_mem d hc)
  match places, hplaces with
  | [], _ =>
      refine ⟨⟨s, [d], none, some (decide (x < 0), _)⟩, ⟨by simp, by simp [hleading],
        by simpa using hdigit, nofun, hexponent⟩, rfl, ?_, rfl, ?_⟩
      · simp [chars, tail, scale, Binary64.scientific, hzeros]
      · simp [value, hpower]
  | c :: cs, hplaces =>
      refine ⟨⟨s, [d], some (c :: cs), some (decide (x < 0), _)⟩, ⟨by simp, by simp [hleading],
        by simpa using hdigit, ?_, hexponent⟩, rfl, ?_, rfl, ?_⟩
      · rintro _ ⟨⟩
        exact ⟨by simp, hplaces⟩
      · simp [chars, tail, scale, Binary64.scientific, hzeros]
      · simp only [value, Option.getD_some, Option.map_some, hpower, List.length_cons,
          List.cons_append, List.nil_append]
        congr 2
        push_cast
        ring

end Digits

/-- A positive decimal is written as a numeral. -/
theorem decimalText_writes {d : Decimal} (hd : 0 < d.digits) (s : Bool) :
    ∃ n : Numeral, n.Writes s (Binary64.decimalText d) (d.digits * 10 ^ d.exponent) := by
  obtain ⟨ds, hds⟩ : ∃ ds, ds = Nat.toDigits 10 d.digits := ⟨_, rfl⟩
  have hne : ds ≠ [] := hds ▸ Nat.toDigits_ne_nil
  have hall : ∀ c ∈ ds, c.isDigit = true := fun c hc => isDigit_of_mem_toDigits (hds ▸ hc)
  have hhead : ds.head? ≠ some '0' := fun h => hd.ne' (toDigits_head (hds ▸ h))
  have hvalue : digitsValue ds = d.digits := hds ▸ digitsValue_toDigits _
  have hlength : 0 < ds.length := List.length_pos_iff.mpr hne
  obtain ⟨x, hx⟩ : ∃ x, x = d.exponent + (ds.length : Int) - 1 := ⟨_, rfl⟩
  have hexponent : d.exponent = x + 1 - ds.length := by omega
  simp only [Binary64.decimalText, ← hds, ← hx]
  rw [hexponent, ← hvalue]
  split
  next hrange =>
    simp only [Binary64.positional]
    split
    next hneg =>
      have hbelow := below_writes hne hall s (-x - 1).toNat
      rw [show -(((-x - 1).toNat : Int) + ds.length) = x + 1 - ds.length by omega] at hbelow
      exact ⟨_, hbelow⟩
    next hnonneg =>
      split
      next hle =>
        have hwhole := whole_writes hne hall hhead s (x.toNat + 1 - ds.length)
        rw [show ((x.toNat + 1 - ds.length : Nat) : Int) = x + 1 - ds.length by omega] at hwhole
        exact ⟨_, hwhole⟩
      next hgt =>
        have hpointed := pointed_writes hne hall hhead s (k := x.toNat + 1) (by omega) (by omega)
        rw [show ((x.toNat + 1 : Nat) : Int) - ds.length = x + 1 - ds.length by omega] at hpointed
        exact ⟨_, hpointed⟩
  next => exact scientific_writes hne hall hhead s x

/-- A finite double is written as a numeral that is read as the double. -/
theorem exists_ofFinite {m : Nat} {e : Int} (h : Binary64.IsNormal m e) (s : Bool) :
    ∃ n : Numeral, n.Standard ∧ n.chars = (Binary64.finite s m e).text.toList ∧
      n.form.isInteger = false ∧ n.form.double = .finite s m e := by
  have htext : (Binary64.finite s m e).text.toList = (if s then ['-'] else []) ++
      (if m = 0 then ['0', '.', '0'] else Binary64.decimalText (Binary64.shortest m e)) := by
    cases s <;> simp [Binary64.text]
  rw [htext]
  obtain rfl | hm := Nat.eq_zero_or_pos m
  · refine ⟨⟨s, ['0'], some ['0'], none⟩, ⟨by simp, by simp, by simp, by simp, nofun⟩, ?_, rfl, ?_⟩
    · simp [chars, tail, scale]
    · have hleast : e = Binary64.leastExponent := h.full.resolve_left (by norm_num)
      rw [hleast]
      rfl
  · obtain ⟨hdigits, hround⟩ := Binary64.shortest_spec hm h
    obtain ⟨n, hn⟩ := decimalText_writes hdigits s
    refine ⟨n, hn.standard, by rw [hn.chars, if_neg hm.ne'], hn.fractional, ?_⟩
    rw [double_form, hn.negative]
    refine Binary64.ofDecimal_of_roundsTo hm h ?_ s
    rw [← hn.value] at hround
    exact hround

end Numeral

end TableAudit.Number
