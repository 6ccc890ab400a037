import TableAudit.Proofs.Duration
import TableAudit.Proofs.Duration.Grammar
import TableAudit.Proofs.Number.Shortest

/-!
# Sums of durations

The milliseconds of the parts are added as doubles. Numbers below `2 ^ 53` make every product so
small that it cannot lift a sum beyond the range of doubles, however many there are; so every
duration of such numbers has milliseconds. Natural numbers with units are added without any
rounding as long as their total stays below `2 ^ 53`.
-/

namespace TableAudit.Duration

open TableAudit.Number (Binary64 Form Stops isDecimalDigit_not_blank)
open TableAudit.Text (isBlank isDecimalDigit digitsValue)

variable {c : Char} {cs gap back : List Char} {ns : List (Form × Nat)} {n : Form × Nat}
  {x : Binary64} {f : Form} {ms : Nat} {name : String}

/-! ### Sums in the range of doubles -/

/-- The number that digits and decimals write, without its sign. -/
def magnitude (f : Form) : ℚ :=
  digitsValue (f.whole ++ f.fraction.getD []) *
    10 ^ (f.exponent.getD 0 - ((f.fraction.getD []).length : Int))

theorem double_le (h : magnitude f < 2 ^ 53) :
    f.double.isFinite = true ∧ |f.double.value| ≤ 2 ^ (53 : Int) :=
  Binary64.ofDecimal_le (by exact_mod_cast h) (by decide) (by decide) f.negative

theorem unit?_bounds (h : unit? name = some ms) : 0 < ms ∧ ms < 2 ^ 35 := by
  have hall : ∀ u ∈ units, 0 < u.1 ∧ u.1 < 2 ^ 35 := by decide
  obtain ⟨u, hu, rfl⟩ := Option.map_eq_some_iff.mp h
  exact hall u (List.mem_of_find?_eq_some hu)

theorem Reads.factor_lt (h : Reads cs ns) : ∀ n ∈ ns, n.2 < 2 ^ 35 := by
  induction h with
  | nil => exact nofun
  | blank _ _ ih => exact ih
  | part _ _ unit _ ih => exact List.forall_mem_cons.mpr ⟨(unit?_bounds unit).2, ih⟩

theorem ofInt_unit (h : ms < 2 ^ 35) :
    (Binary64.ofInt ms).isFinite = true ∧ (Binary64.ofInt ms).value = ms := by
  have hexact := Binary64.ofInt_exact (Binary64.representable_int (n := ms) (by omega))
  rwa [Int.cast_natCast] at hexact

/-- A number below `2 ^ 53` has fewer than `2 ^ 88` milliseconds in any unit. -/
theorem product_le (hn : magnitude n.1 < 2 ^ 53) (hu : n.2 < 2 ^ 35) :
    (n.1.double.mul (Binary64.ofInt n.2)).isFinite = true ∧
      |(n.1.double.mul (Binary64.ofInt n.2)).value| ≤ 2 ^ (88 : Int) := by
  obtain ⟨hfinite, hle⟩ := double_le hn
  obtain ⟨hunit, hvalue⟩ := ofInt_unit hu
  refine Binary64.mul_le hfinite hunit ?_ (by decide) (by decide)
  have hfactor : |(n.2 : ℚ)| ≤ 2 ^ (35 : Int) := by
    rw [Nat.abs_cast]
    exact_mod_cast hu.le
  rw [hvalue, abs_mul, show (88 : Int) = 53 + 35 by norm_num, zpow_add₀ two_ne_zero]
  exact mul_le_mul hle hfactor (abs_nonneg _) (by positivity)

/-- What is added is too small to lift a sum beyond `2 ^ 141`. -/
theorem sumOf_le (h : ∀ n ∈ ns, magnitude n.1 < 2 ^ 53 ∧ n.2 < 2 ^ 35) (hx : x.isFinite = true)
    (hle : |x.value| ≤ 2 ^ (141 : Int)) : (sumOf x ns).isFinite = true := by
  induction ns generalizing x with
  | nil => exact hx
  | cons n ns ih =>
      obtain ⟨⟨hn, hu⟩, h⟩ := List.forall_mem_cons.mp h
      obtain ⟨hfinite, hsmall⟩ := product_le hn hu
      obtain ⟨hadd, hsum⟩ := Binary64.add_le hx hfinite hle hsmall (by decide) (by decide)
      exact ih h hadd hsum

theorem rounded_finite (hx : x.isFinite = true) : ∃ n, rounded x = .ok n := by
  obtain ⟨n, hround, -⟩ := Binary64.roundEven?_near hx
  match x, hx with
  | .finite s m e, _ => exact ⟨n, by simp only [rounded, hround]⟩

/-! ### Amounts written out -/

/-- A number with a unit as it is written, and the blanks before it. -/
structure Amount where
  before : List Char
  digits : List Char
  gap : List Char
  word : List Char

namespace Amount

variable {a : Amount}

/-- The text of an amount. -/
def chars (a : Amount) : List Char :=
  a.before ++ (a.digits ++ (a.gap ++ a.word))

/-- The amount with its unit in lower case. -/
def lower (a : Amount) : Amount :=
  { a with word := a.word.map Char.toLower }

/-- The milliseconds of the unit. -/
def factor (a : Amount) : Nat :=
  (unit? (String.ofList a.word)).getD 0

/-- The milliseconds of the amount. -/
def millis (a : Amount) : Nat :=
  digitsValue a.digits * a.factor

/-- What is read of the amount. -/
def number (a : Amount) : Form × Nat :=
  (⟨false, a.digits, none, none⟩, a.factor)

/-- Digits with a unit in lower case. Blanks after digits without a unit are those before the next
amount. -/
structure IsWritten (a : Amount) : Prop where
  before : Blanks a.before
  ne_nil : a.digits ≠ []
  digits : ∀ c ∈ a.digits, c.isDigit = true
  gap : Blanks a.gap
  unit : IsUnit a.word
  tight : a.word = [] → a.gap = []

/-- Two numbers without a unit between them need blanks between them. -/
def Apart (a b : Amount) : Prop :=
  a.word = [] → b.before ≠ []

theorem IsWritten.unit_eq (h : a.IsWritten) : unit? (String.ofList a.word) = some a.factor := by
  obtain ⟨ms, hms⟩ := Option.isSome_iff_exists.mp h.unit
  rw [factor, hms]
  rfl

theorem IsWritten.read (h : a.IsWritten) : Digits a.digits :=
  ⟨h.ne_nil, fun c hc => TableAudit.Number.isDecimalDigit_of_isDigit (h.digits c hc)⟩

end Amount

/-- The text of amounts. -/
def text (as : List Amount) : List Char :=
  as.flatMap Amount.chars

/-- The milliseconds of amounts. -/
def total (as : List Amount) : Nat :=
  (as.map fun a => a.lower.millis).sum

variable {a : Amount} {as : List Amount}

/-- Amounts one after the other, with blanks after the last one. -/
structure AreWritten (as : List Amount) (back : List Char) : Prop where
  ne_nil : as ≠ []
  amounts : ∀ a ∈ as, a.lower.IsWritten
  apart : as.IsChain Amount.Apart
  back : Blanks back

/-- The text of amounts as a value. -/
def written (as : List Amount) (back : List Char) : Value :=
  .text (String.ofList (text as ++ back))

/-! ### Reading amounts -/

theorem Reads.blanks (hg : Blanks gap) (h : Reads cs ns) : Reads (gap ++ cs) ns := by
  induction gap with
  | nil => exact h
  | cons c gap ih =>
      obtain ⟨hc, hg⟩ := List.forall_mem_cons.mp hg
      exact .blank hc (ih hg)

theorem Reads.dropBlanks (h : Reads cs ns) : Reads (cs.dropWhile isBlank) ns := by
  induction h with
  | nil => exact .nil
  | blank hc _ ih => rwa [List.dropWhile_cons_of_pos hc]
  | part hc here unit tail =>
      rw [List.dropWhile_cons_of_neg (by simp [hc])]
      exact .part hc here unit tail

/-- Digits are all of a number if no digit and no point follows them. -/
theorem number?_stop (hd : Digits cs) {rest : List Char} (hstop : Stops isDecimalDigit rest)
    (hpoint : rest.head? ≠ some '.') :
    number? (cs ++ rest) = some (⟨false, cs, none, none⟩, rest) := by
  have hdrop : rest.takeWhile isDecimalDigit = [] ∧ rest.dropWhile isDecimalDigit = rest := by
    cases rest with
    | nil => exact ⟨rfl, rfl⟩
    | cons c rest =>
        have hc : isDecimalDigit c = false := hstop c rfl
        exact ⟨List.takeWhile_cons_of_neg (by simp [hc]), List.dropWhile_cons_of_neg (by simp [hc])⟩
  have hplaces : spanPlaces rest = ([], rest) := by
    unfold spanPlaces
    split
    next => exact absurd rfl hpoint
    next => rfl
  have hread := number?_digits (Or.inl rfl) hd rest
  simp only [List.nil_append, hdrop.1, hdrop.2, List.append_nil, hplaces] at hread
  exact hread

/-- After the digits of an amount comes a blank, a letter or the end of the text. -/
theorem Amount.IsWritten.after (h : a.IsWritten)
    (hnext : a.word = [] → ∀ c ∈ cs.head?, isBlank c = true) :
    ∀ c ∈ (a.gap ++ (a.word ++ cs)).head?, isBlank c = true ∨ isUnitLetter c = true := by
  intro c hc
  cases hgap : a.gap with
  | cons d gap =>
      rw [hgap] at hc
      cases hc
      exact Or.inl (h.gap c (hgap ▸ List.mem_cons_self))
  | nil =>
      cases hword : a.word with
      | cons d word =>
          rw [hgap, hword] at hc
          cases hc
          exact Or.inr (h.unit.letters c (hword ▸ List.mem_cons_self))
      | nil =>
          rw [hgap, hword] at hc
          exact Or.inl (hnext hword c hc)

theorem text_blank (h : ∀ b ∈ as, b.IsWritten) (hne : ∀ b ∈ as.head?, b.before ≠ []) :
    ∀ c ∈ (text as).head?, isBlank c = true := by
  cases as with
  | nil => exact nofun
  | cons b as =>
      obtain ⟨d, before, hb⟩ := List.exists_cons_of_ne_nil (hne b rfl)
      intro c hc
      rw [text, List.flatMap_cons, Amount.chars, hb] at hc
      cases hc
      exact (h b List.mem_cons_self).before d (hb ▸ List.mem_cons_self)

/-- Written amounts are read one after the other. -/
theorem reads_text (h : ∀ a ∈ as, a.IsWritten) (hapart : as.IsChain Amount.Apart) :
    Reads (text as) (as.map Amount.number) := by
  induction as with
  | nil => exact .nil
  | cons a as ih =>
      obtain ⟨ha, h⟩ := List.forall_mem_cons.mp h
      have htail := ih h hapart.tail
      have hafter := ha.after fun hword => text_blank h fun b hb => hapart.rel_head? hb hword
      obtain ⟨d, ds, hds, hd⟩ := ha.read.exists_cons
      have hnumber : number? (a.digits ++ (a.gap ++ (a.word ++ text as))) =
          some (a.number.1, a.gap ++ (a.word ++ text as)) := by
        refine number?_stop ha.read (fun c hc => ?_) fun hc => ?_
        · obtain hb | hl := hafter c hc
          · rw [Bool.eq_false_iff]
            intro hdigit
            rw [isDecimalDigit_not_blank hdigit] at hb
            cases hb
          · exact letter_not_digit hl
        · have := hafter '.' hc
          revert this
          decide
      have hspan := span_unit ha.gap ha.unit.letters htail.mixed.stops htail.mixed.dropBlanks.stops
      rw [text, List.flatMap_cons, Amount.chars, List.append_assoc, List.append_assoc,
        List.append_assoc]
      refine .blanks ha.before ?_
      have hpart := (part?_some_iff (p := ⟨a.number.1, a.word⟩)).mpr ⟨_, hnumber, hspan⟩
      change Reads (a.digits ++ (a.gap ++ (a.word ++ text as))) _
      rw [hds, List.cons_append] at hpart ⊢
      refine .part (isDecimalDigit_not_blank hd) hpart ha.unit_eq ?_
      split
      · exact htail.dropBlanks
      · exact htail

/-! ### Trimming and lower case -/

theorem lower_append (cs ds : List Char) :
    Text.lower (cs ++ ds) = Text.lower cs ++ Text.lower ds :=
  List.flatMap_append

/-- Blanks have no lower case. -/
theorem toLower_blank (h : isBlank c = true) : Text.toLower c = c := by
  rw [Text.toLower]
  split
  · exact TableAudit.Number.toLower_of_blank h
  next hlarge =>
    have hnone : Text.lowerRuns.find? (fun r =>
        r.1 ≤ c.toNat && c.toNat ≤ r.2.1 && (c.toNat - r.1) % r.2.2.1 == 0) = none := by
      have hall : ∀ r ∈ Text.lowerRuns.toList, ∀ b ∈ TableAudit.Number.blankRuns,
          b.2 < r.1 ∨ r.2.1 < b.1 := by decide +kernel
      rw [Array.find?_eq_none]
      intro r hr
      have hruns := hall r hr.val
      simp only [TableAudit.Number.blankRuns, List.forall_mem_cons] at hruns
      simp only [isBlank, Bool.or_eq_true, Bool.and_eq_true, decide_eq_true_eq, beq_iff_eq] at h
      simp only [Bool.and_eq_true, decide_eq_true_eq, beq_iff_eq, not_and]
      omega
    rw [hnone]

theorem lower_blanks (hg : Blanks gap) : Text.lower gap = gap := by
  rw [lower_eq_map (g := id), List.map_id]
  intro c hc
  refine ⟨?_, toLower_blank (hg c hc)⟩
  intro h304
  have := hg c hc
  rw [isBlank, h304] at this
  revert this
  decide

theorem lower_digits (hd : ∀ c ∈ cs, c.isDigit = true) : Text.lower cs = cs := by
  rw [lower_eq_map (g := id), List.map_id]
  exact fun c hc => toLower_digit (hd c hc)

/-- A character is a letter if its lower case is one. -/
theorem letter_of_lower (h : isUnitLetter c.toLower = true) : isUnitLetter c = true := by
  by_cases hupper : 65 ≤ c.toNat ∧ c.toNat ≤ 90
  · exact isUnitLetter_iff.mpr (.inl hupper)
  · have hsame : c.toLower = c := dif_neg hupper
    rwa [hsame] at h

theorem lower_letters (h : ∀ c ∈ cs, isUnitLetter c = true) :
    Text.lower cs = cs.map Char.toLower := by
  refine lower_eq_map fun c hc => ?_
  have := isUnitLetter_iff.mp (h c hc)
  rw [Text.toLower, if_pos (by omega)]
  exact ⟨by omega, rfl⟩

/-- The characters of a written amount. -/
theorem Amount.IsWritten.kinds (h : a.IsWritten) (hc : c ∈ a.chars) :
    isBlank c = true ∨ isDecimalDigit c = true ∨ isUnitLetter c = true := by
  rw [Amount.chars, List.mem_append, List.mem_append, List.mem_append] at hc
  obtain hc | hc | hc | hc := hc
  · exact Or.inl (h.before c hc)
  · exact Or.inr (Or.inl (h.read.all c hc))
  · exact Or.inl (h.gap c hc)
  · exact Or.inr (Or.inr (h.unit.letters c hc))

theorem Amount.IsWritten.letters (h : a.lower.IsWritten) : ∀ c ∈ a.word, isUnitLetter c = true :=
  fun c hc => letter_of_lower (h.unit.letters c.toLower (List.mem_map_of_mem hc))

theorem Amount.IsWritten.lower_chars (h : a.lower.IsWritten) :
    Text.lower a.chars = a.lower.chars := by
  have hbefore : Text.lower a.before = a.before := lower_blanks h.before
  have hdigits : Text.lower a.digits = a.digits := lower_digits h.digits
  have hgap : Text.lower a.gap = a.gap := lower_blanks h.gap
  rw [Amount.chars, lower_append, lower_append, lower_append, hbefore, hdigits, hgap,
    lower_letters h.letters]
  rfl

theorem lower_text (h : ∀ a ∈ as, a.lower.IsWritten) :
    Text.lower (text as) = text (as.map Amount.lower) := by
  induction as with
  | nil => rfl
  | cons a as ih =>
      obtain ⟨ha, h⟩ := List.forall_mem_cons.mp h
      rw [text, List.flatMap_cons, lower_append, ha.lower_chars]
      exact congrArg (a.lower.chars ++ ·) (ih h)

/-- The last character of an amount is a digit or a letter. -/
theorem Amount.IsWritten.last (h : a.lower.IsWritten) :
    ∀ c ∈ a.chars.getLast?, isBlank c = false := by
  intro c hc
  rw [Amount.chars, List.getLast?_append, List.getLast?_append, List.getLast?_append] at hc
  cases hword : a.word.getLast? with
  | some d =>
      rw [hword] at hc
      cases hc
      exact letter_not_blank (h.letters c (List.mem_of_getLast? hword))
  | none =>
      have hnil := List.getLast?_eq_none_iff.mp hword
      have hgap : a.gap = [] := h.tight (by rw [Amount.lower, hnil]; rfl)
      have hdigits := List.getLast?_eq_some_getLast h.ne_nil
      rw [hword, hgap] at hc
      change c ∈ ((none.or none).or a.lower.digits.getLast?).or _ at hc
      rw [hdigits] at hc
      cases hc
      exact isDecimalDigit_not_blank (h.read.all _ (List.getLast_mem h.ne_nil))

theorem last_text (h : ∀ a ∈ as, a.lower.IsWritten) :
    ∀ c ∈ (text as).getLast?, isBlank c = false := by
  induction as with
  | nil => exact nofun
  | cons a as ih =>
      obtain ⟨ha, h⟩ := List.forall_mem_cons.mp h
      intro c hc
      rw [text, List.flatMap_cons, List.getLast?_append] at hc
      cases hlast : (as.flatMap Amount.chars).getLast? with
      | some d =>
          rw [hlast] at hc
          cases hc
          exact ih h c hlast
      | none =>
          rw [hlast] at hc
          exact ha.last c hc

/-- Parts are looked for in the amounts with their units in lower case and without blanks around
them. -/
theorem canonical_text (h : ∀ b ∈ a :: as, b.lower.IsWritten) (hb : Blanks back) :
    canonical (text (a :: as) ++ back) =
      text (({ a with before := [] } :: as).map Amount.lower) := by
  obtain ⟨ha, htail⟩ := List.forall_mem_cons.mp h
  have hcore : ∀ b ∈ { a with before := [] } :: as, b.lower.IsWritten :=
    List.forall_mem_cons.mpr
      ⟨⟨nofun, ha.ne_nil, ha.digits, ha.gap, ha.unit, ha.tight⟩, htail⟩
  have hsplit : text (a :: as) = a.before ++ text ({ a with before := [] } :: as) := by
    simp only [text, List.flatMap_cons, Amount.chars, List.nil_append, List.append_assoc]
  have htrimmed : Text.Trimmed (text ({ a with before := [] } :: as)) := by
    refine ⟨fun c hc => ?_, last_text hcore⟩
    obtain ⟨d, ds, hds, hd⟩ := ha.read.exists_cons
    change a.digits = d :: ds at hds
    simp only [text, List.flatMap_cons, Amount.chars, List.nil_append, hds] at hc
    cases hc
    exact isDecimalDigit_not_blank hd
  have hkept : ∀ c ∈ text (({ a with before := [] } :: as).map Amount.lower),
      decide (c ≠ ',') = true := by
    intro c hc
    obtain ⟨_, hmem, hc⟩ := List.mem_flatMap.mp hc
    obtain ⟨b, hb, rfl⟩ := List.mem_map.mp hmem
    have hkind := (hcore b hb).kinds hc
    rw [decide_eq_true_eq]
    rintro rfl
    revert hkind
    decide
  have hbefore : Blanks a.before := ha.before
  rw [canonical, hsplit, htrimmed.trimChars_around hbefore hb, lower_text hcore,
    List.filter_eq_self.mpr hkept]

/-! ### Exact sums -/

/-- A natural number below `2 ^ 53` is read without rounding. -/
theorem double_digits {ds : List Char} (h : digitsValue ds < 2 ^ 53) :
    (Form.double ⟨false, ds, none, none⟩).isFinite = true ∧
      (Form.double ⟨false, ds, none, none⟩).value = digitsValue ds := by
  have hlength : TableAudit.Number.decimalLength (digitsValue ds) ≤ 16 :=
    (Nat.length_toDigits_le_iff (by decide) (by decide)).mpr (h.trans (by norm_num))
  have hrep : Binary64.Representable ((digitsValue ds : ℚ) * 10 ^ (0 : Int)) := by
    rw [zpow_zero, mul_one]
    have hint := Binary64.representable_int (n := (digitsValue ds : Int)) (by omega)
    rwa [Int.cast_natCast] at hint
  have hexact := Binary64.ofDecimal_exact hrep (by omega) (by omega) false
  simpa only [Form.double, Option.getD_none, List.append_nil, List.length_nil, Nat.cast_zero,
    sub_zero, zpow_zero, mul_one, Bool.false_eq_true, if_false] using hexact

theorem exact_nat {k : Nat} (h : k < 2 ^ 53) : Binary64.Representable (k : ℚ) := by
  have hint := Binary64.representable_int (n := (k : Int)) (by omega)
  rwa [Int.cast_natCast] at hint

/-- The sum of amounts is exact as long as the total is small enough. -/
theorem sumOf_exact {k : Nat} (h : ∀ a ∈ as, a.IsWritten) (hx : x.isFinite = true)
    (hk : x.value = k) (hsmall : k + (as.map Amount.millis).sum < 2 ^ 53) :
    (sumOf x (as.map Amount.number)).isFinite = true ∧
      (sumOf x (as.map Amount.number)).value = (k + (as.map Amount.millis).sum : Nat) := by
  induction as generalizing x k with
  | nil => exact ⟨hx, hk⟩
  | cons a as ih =>
      obtain ⟨ha, h⟩ := List.forall_mem_cons.mp h
      rw [List.map_cons, List.sum_cons, ← add_assoc] at hsmall
      have hunit := unit?_bounds ha.unit_eq
      have hdigits : digitsValue a.digits ≤ a.millis := Nat.le_mul_of_pos_right _ hunit.1
      have hbelow : digitsValue a.digits < 2 ^ 53 := by omega
      obtain ⟨hfinite, hvalue⟩ := double_digits hbelow
      obtain ⟨hfactor, hms⟩ := ofInt_unit hunit.2
      have hproduct : (Form.double ⟨false, a.digits, none, none⟩).value *
          (Binary64.ofInt a.factor).value = (a.millis : ℚ) := by
        rw [hvalue, hms, Amount.millis, Nat.cast_mul]
      obtain ⟨hmul, hmulvalue⟩ := Binary64.mul_exact hfinite hfactor (by
        rw [hproduct]
        exact exact_nat (by omega))
      rw [hproduct] at hmulvalue
      obtain ⟨hadd, hsum⟩ := Binary64.add_exact hx hmul (by
        rw [hk, hmulvalue, ← Nat.cast_add]
        exact exact_nat (by omega))
      rw [hk, hmulvalue, ← Nat.cast_add] at hsum
      rw [List.map_cons, List.map_cons, List.sum_cons, ← add_assoc]
      exact ih h hadd hsum hsmall

/-! ### Durations in texts -/

/-- A text has milliseconds if it is a duration of numbers below `2 ^ 53`. -/
theorem ofText_ok {source : Value} (h : IsDuration (canonical cs))
    (hsmall : ∀ ns, Reads (canonical cs) ns → ∀ n ∈ ns, magnitude n.1 < 2 ^ 53) :
    ∃ k, ofText source cs = .ok k := by
  obtain ⟨ns, hns⟩ := h.mixed.reads
  have hfinite : (sumOf (Binary64.zero false) ns).isFinite = true := by
    refine sumOf_le (fun n hn => ⟨hsmall ns hns n hn, hns.factor_lt n hn⟩) rfl ?_
    rw [Binary64.value_zero, abs_zero]
    positivity
  obtain ⟨k, hk⟩ := rounded_finite hfinite
  exact ⟨k, by rw [ofText_of_reads h hns, hk]; rfl⟩

theorem AreWritten.lower (h : AreWritten (a :: as) back) :
    (∀ b ∈ ({ a with before := [] } :: as).map Amount.lower, b.IsWritten) ∧
      (({ a with before := [] } :: as).map Amount.lower).IsChain Amount.Apart := by
  obtain ⟨ha, htail⟩ := List.forall_mem_cons.mp h.amounts
  constructor
  · rw [List.forall_mem_map]
    exact List.forall_mem_cons.mpr
      ⟨⟨nofun, ha.ne_nil, ha.digits, ha.gap, ha.unit, ha.tight⟩, htail⟩
  · rw [List.isChain_map]
    have hchain := List.isChain_cons.mp h.apart
    have hword {b : Amount} (hb : b.lower.word = []) : b.word = [] := List.map_eq_nil_iff.mp hb
    refine List.isChain_cons.mpr ⟨fun b hb hw => hchain.1 b hb (hword hw), ?_⟩
    exact hchain.2.imp fun b b' hbb hw => hbb (hword hw)

theorem ofValue_text (s : String) : ofValue (.text s) = ofText (.text s) s.toList :=
  rfl

/-- Amounts come to their total. -/
theorem ofValue_written (h : AreWritten as back) (hsmall : total as < 2 ^ 53) :
    ofValue (written as back) = .ok (total as) := by
  obtain ⟨a, as, rfl⟩ := List.exists_cons_of_ne_nil h.ne_nil
  obtain ⟨hwritten, hapart⟩ := h.lower
  have hcanonical := canonical_text h.amounts h.back
  have hreads := reads_text hwritten hapart
  have hsum : ((({ a with before := [] } :: as).map Amount.lower).map Amount.millis).sum =
      total (a :: as) := by
    rw [List.map_map]
    rfl
  rw [← hcanonical] at hreads
  have hduration : IsDuration (canonical (text (a :: as) ++ back)) := by
    refine isDuration_iff.mpr ⟨hreads.mixed, fun hblank => ?_⟩
    rw [hcanonical] at hblank
    obtain ⟨d, ds, hds, hd⟩ := (hwritten _ List.mem_cons_self).read.exists_cons
    have hmem : d ∈ text (({ a with before := [] } :: as).map Amount.lower) := by
      rw [text, List.map_cons, List.flatMap_cons, Amount.chars, hds]
      simp
    have := hblank d hmem
    rw [isDecimalDigit_not_blank hd] at this
    cases this
  obtain ⟨hfinite, hvalue⟩ := sumOf_exact (x := Binary64.zero false) (k := 0) hwritten rfl
    (by rw [Binary64.value_zero, Nat.cast_zero]) (by rw [hsum]; omega)
  rw [hsum, zero_add] at hvalue
  rw [written, ofValue_text, String.toList_ofList, ofText_of_reads hduration hreads,
    rounded_integer (n := (total (a :: as) : Int)) hfinite (by rw [hvalue, Int.cast_natCast])]
  rfl

theorem total_append (as bs : List Amount) : total (as ++ bs) = total as + total bs := by
  rw [total, List.map_append, List.sum_append]
  rfl

/-- A text is refused as a mistake just if it is no duration, once it is trimmed, in lower case and
without commas. If the numbers in it are below `2 ^ 53`, it has milliseconds just if it is one.
Natural numbers with units come to their total exactly, in any spelling, letter case and spacing,
as long as it is below `2 ^ 53`; so durations written together add up. -/
theorem durations_read :
    (∀ s : String,
      ((∃ m, ofValue (.text s) = .error (.mistake m)) ↔ ¬ IsDuration (canonical s.toList)) ∧
      ((∀ ns, Reads (canonical s.toList) ns → ∀ n ∈ ns, magnitude n.1 < 2 ^ 53) →
        ((∃ k, ofValue (.text s) = .ok k) ↔ IsDuration (canonical s.toList)))) ∧
    (∀ as back, AreWritten as back → total as < 2 ^ 53 →
      ofValue (written as back) = .ok (total as)) ∧
    (∀ as bs back, as ≠ [] → bs ≠ [] → AreWritten (as ++ bs) back → total (as ++ bs) < 2 ^ 53 →
      ∃ k l, ofValue (written as []) = .ok k ∧ ofValue (written bs back) = .ok l ∧
        ofValue (written (as ++ bs) back) = .ok (k + l)) := by
  refine ⟨fun s => ?_, fun as back h hsmall => ofValue_written h hsmall, ?_⟩
  · rw [ofValue_text]
    by_cases h : IsDuration (canonical s.toList)
    · refine ⟨⟨?_, fun hnot => absurd h hnot⟩, fun hsmall =>
        ⟨fun _ => h, fun _ => ofText_ok h hsmall⟩⟩
      rintro ⟨m, hm⟩
      obtain ⟨ns, hns⟩ := h.mixed.reads
      rw [ofText_of_reads h hns] at hm
      cases hr : rounded (sumOf (Binary64.zero false) ns) with
      | error f => rw [hr] at hm; cases hm
      | ok k => rw [hr] at hm; cases hm
    · have hmistake : ∃ m, ofText (.text s) s.toList = .error (.mistake m) := ofText_of_not h
      obtain ⟨m, hm⟩ := hmistake
      refine ⟨⟨fun _ => h, fun _ => ⟨m, hm⟩⟩, fun _ => ⟨?_, fun hd => absurd hd h⟩⟩
      rintro ⟨k, hk⟩
      rw [hm] at hk
      cases hk
  · intro as bs back has hbs h hsmall
    have hfirst : AreWritten as [] :=
      ⟨has, fun a ha => h.amounts a (List.mem_append_left bs ha), h.apart.left_of_append, nofun⟩
    have hsecond : AreWritten bs back :=
      ⟨hbs, fun a ha => h.amounts a (List.mem_append_right as ha), h.apart.right_of_append, h.back⟩
    have htotal := total_append as bs
    refine ⟨total as, total bs, ofValue_written hfirst (by omega),
      ofValue_written hsecond (by omega), ?_⟩
    rw [ofValue_written h hsmall, htotal, Nat.cast_add]

/-- Two hours, with the unit in upper case. -/
def hours : Amount := ⟨[], ['2'], [], ['H']⟩

/-- Thirty minutes behind a blank, with another one before the unit. -/
def minutes : Amount := ⟨[' '], ['3', '0'], [' '], ['m']⟩

theorem areWritten_hours_minutes : AreWritten ([hours] ++ [minutes]) [] := by
  refine ⟨by decide, ?_, List.isChain_pair.mpr nofun, nofun⟩
  rintro a ha
  obtain rfl | rfl : a = hours ∨ a = minutes := by simpa using ha
  · exact ⟨by decide, nofun, List.all_eq_true.mp rfl, by decide, by decide, fun _ => rfl⟩
  · exact ⟨by decide, nofun, List.all_eq_true.mp rfl, by decide, by decide, nofun⟩

theorem reads_hours_minutes :
    Reads (canonical "2H 30 m".toList) [hours.lower.number, minutes.lower.number] :=
  have h := areWritten_hours_minutes.lower
  reads_text h.1 h.2

theorem magnitude_hours_minutes : ∀ ns, Reads (canonical "2H 30 m".toList) ns →
    ∀ n ∈ ns, magnitude n.1 < 2 ^ 53 := by
  intro ns hns
  rw [reads_hours_minutes.unique hns]
  have hhours : magnitude hours.lower.number.1 = (2 : Nat) * 10 ^ ((0 : Int) - (0 : Nat)) := rfl
  have hminutes : magnitude minutes.lower.number.1 = (30 : Nat) * 10 ^ ((0 : Int) - (0 : Nat)) :=
    rfl
  simp only [List.forall_mem_cons, hhours, hminutes]
  norm_num

/-- Two hours and thirty minutes add up. -/
theorem hours_minutes_read :
    (∀ ns, Reads (canonical "2H 30 m".toList) ns → ∀ n ∈ ns, magnitude n.1 < 2 ^ 53) ∧
    AreWritten ([hours] ++ [minutes]) [] ∧ total ([hours] ++ [minutes]) < 2 ^ 53 ∧
    IsDuration (canonical "2H 30 m".toList) ∧ ofValue (.text "2H 30 m") = .ok 9000000 ∧
    ∃ k l, ofValue (.text "2H") = .ok k ∧ ofValue (.text " 30 m") = .ok l ∧
      ofValue (.text "2H 30 m") = .ok (k + l) := by
  have htotal : total ([hours] ++ [minutes]) = 9000000 := rfl
  have hsmall : total ([hours] ++ [minutes]) < 2 ^ 53 := by rw [htotal]; norm_num
  have hboth : written ([hours] ++ [minutes]) [] = .text "2H 30 m" := rfl
  have hfirst : written [hours] [] = .text "2H" := rfl
  have hsecond : written [minutes] [] = .text " 30 m" := rfl
  have hread := durations_read.2.1 _ _ areWritten_hours_minutes hsmall
  have hadded := durations_read.2.2 [hours] [minutes] [] (by decide) (by decide)
    areWritten_hours_minutes hsmall
  rw [hboth, htotal] at hread
  rw [hboth, hfirst, hsecond] at hadded
  exact ⟨magnitude_hours_minutes, areWritten_hours_minutes, hsmall,
    ((durations_read.1 "2H 30 m").2 magnitude_hours_minutes).mp ⟨_, hread⟩, hread, hadded⟩

/-- A comma at the front leaves a blank before the first part. -/
theorem blank_after_comma : (ofValue (.text ", 5d")).toOption = some 432000000 ∧
    ¬ IsParts (canonical ", 5d".toList) := by
  refine ⟨by decide +kernel, fun h => ?_⟩
  obtain ⟨c, rest, hcs, hc⟩ := h.exists_cons
  have hcanonical : canonical ", 5d".toList = [' ', '5', 'd'] := rfl
  rw [hcanonical] at hcs
  cases hcs
  have := hc.not_blank
  revert this
  decide

end TableAudit.Duration
