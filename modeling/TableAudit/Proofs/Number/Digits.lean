import TableAudit.Proofs.Number.Exact
import TableAudit.Proofs.Number.Reading

/-!
# Texts of integers

An integer's text is its digits after a sign, if it is negative. It is read back as the integer, or
as the double that stands for it if there is one.
-/

namespace TableAudit.Number

open TableAudit.Text (isDecimalDigit digitsValue)

variable {c : Char} {ds : List Char}

theorem digitValue?_of_isDigit (h : c.isDigit = true) :
    Text.digitValue? c = some (c.toNat - 48) := by
  have hle : c.toNat ≤ 57 := by
    simp only [Char.isDigit, Bool.and_eq_true, decide_eq_true_eq] at h
    exact h.2
  rw [Text.digitValue?, if_pos (by omega), if_pos h]

theorem isDecimalDigit_of_isDigit (h : c.isDigit = true) : isDecimalDigit c = true := by
  rw [isDecimalDigit, digitValue?_of_isDigit h]
  rfl

theorem isDigit_of_mem_toDigits {n : Nat} (h : c ∈ Nat.toDigits 10 n) : c.isDigit = true :=
  Nat.isDigit_of_mem_toDigits (by decide) (by decide) h

/-- The digits of a number spell it. -/
theorem digitsValue_toDigits (n : Nat) : digitsValue (Nat.toDigits 10 n) = n := by
  have hfold (ds : List Char) (h : ∀ c ∈ ds, c.isDigit = true) (start : Nat) :
      ds.foldl (fun n c => 10 * n + (Text.digitValue? c).getD 0) start =
        Nat.ofDigitChars 10 ds start := by
    induction ds generalizing start with
    | nil => rfl
    | cons c ds ih =>
        rw [List.forall_mem_cons] at h
        rw [List.foldl_cons, digitValue?_of_isDigit h.1, ih h.2]
        rfl
  rw [digitsValue, hfold _ fun _ => isDigit_of_mem_toDigits,
    Nat.ofDigitChars_toDigits (by decide) (by decide)]

theorem toString_toList (n : Int) :
    (toString n).toList = (if n < 0 then ['-'] else []) ++ Nat.toDigits 10 n.natAbs := by
  rw [show toString n = n.repr from rfl, Int.repr_eq_if]
  by_cases h : n < 0
  · rw [if_neg (not_le.mpr h), if_pos h, String.toList_append, Nat.toList_repr,
      show (-n).toNat = n.natAbs by omega]
    rfl
  · rw [if_pos (not_lt.mp h), if_neg h, Nat.toList_repr, List.nil_append,
      show n.toNat = n.natAbs by omega]

theorem spanSign_toString (n : Int) :
    spanSign (toString n).toList = (decide (n < 0), Nat.toDigits 10 n.natAbs) := by
  rw [toString_toList]
  by_cases h : n < 0
  · simp [h, spanSign]
  · obtain ⟨c, ds, hds⟩ :=
      List.exists_cons_of_ne_nil (Nat.toDigits_ne_nil (n := n.natAbs) (b := 10))
    have hdigit : c.isDigit = true := isDigit_of_mem_toDigits (hds ▸ List.mem_cons_self)
    simp only [h, decide_false, if_false, List.nil_append, hds]
    unfold spanSign
    split
    · exact absurd hdigit (by simp_all)
    · exact absurd hdigit (by simp_all)
    · rfl

/-- The text does not go on with a character of a kind. -/
def Stops (p : Char → Bool) (rest : List Char) : Prop :=
  ∀ c ∈ rest.head?, p c = false

theorem span_append {p : Char → Bool} {ds rest : List Char} (h : ∀ c ∈ ds, p c = true)
    (hr : Stops p rest) : (ds ++ rest).span p = (ds, rest) := by
  rw [List.span_eq_takeWhile_dropWhile, List.takeWhile_append_of_pos h,
    List.dropWhile_append_of_pos h]
  cases rest with
  | nil => simp
  | cons c rest =>
      have hc : p c = false := hr c rfl
      rw [List.takeWhile_cons_of_neg (by simp [hc]), List.dropWhile_cons_of_neg (by simp [hc]),
        List.append_nil]

theorem span_toDigits (k : Nat) :
    (Nat.toDigits 10 k).span isDecimalDigit = (Nat.toDigits 10 k, []) := by
  have hall : ∀ c ∈ Nat.toDigits 10 k, isDecimalDigit c = true :=
    fun c hc => isDecimalDigit_of_isDigit (isDigit_of_mem_toDigits hc)
  have hend : Stops isDecimalDigit [] := fun c hc => by cases hc
  have hspan := span_append hall hend
  rwa [List.append_nil] at hspan

/-- The form of an integer's text. -/
theorem form?_toString (n : Int) : form? (toString n).toList =
    some ⟨decide (n < 0), Nat.toDigits 10 n.natAbs, none, none⟩ := by
  have hne : (Nat.toDigits 10 n.natAbs).isEmpty = false :=
    List.isEmpty_eq_false_iff.mpr Nat.toDigits_ne_nil
  simp only [form?, spanSign_toString, span_toDigits, hne]
  rfl

theorem toLower_digit {c : Char} (h : c.isDigit = true) : c.toLower = c := by
  refine dif_neg ?_
  rintro ⟨hlow, -⟩
  have hlow : 65 ≤ c.toNat := hlow
  simp only [Char.isDigit, Bool.and_eq_true, decide_eq_true_eq] at h
  have hhigh : c.toNat ≤ 57 := h.2
  omega

theorem mem_toString {n : Int} {c : Char} (h : c ∈ (toString n).toList) :
    c = '-' ∨ c.isDigit = true := by
  rw [toString_toList, List.mem_append] at h
  obtain h | h := h
  · split at h
    · exact Or.inl (List.mem_singleton.mp h)
    · cases h
  · exact Or.inr (isDigit_of_mem_toDigits h)

theorem toString_not_blank (n : Int) : ∀ c ∈ (toString n).toList, Text.isBlank c = false :=
  fun c hc => isNumberChar_not_blank (form_chars (form?_toString n) c hc)

theorem toString_injective : Function.Injective (toString : Int → String) := by
  intro a b h
  have hspan := spanSign_toString a
  rw [h, spanSign_toString b, Prod.mk.injEq, decide_eq_decide] at hspan
  have habs := digitsValue_toDigits a.natAbs
  rw [← hspan.2, digitsValue_toDigits] at habs
  omega

/-- The terms of the quotient as which decimals are rounded. -/
theorem decimal_ratio (d : Nat) (k : Int) :
    ((scaled 10 d 1 k).1 : ℚ) / (scaled 10 d 1 k).2 = d * 10 ^ k := by
  rw [scaled_ratio (by decide), Nat.cast_one, div_one, Nat.cast_ofNat]

theorem decimal_pos {d : Nat} (hd : 0 < d) (k : Int) :
    0 < (scaled 10 d 1 k).1 ∧ 0 < (scaled 10 d 1 k).2 := by
  refine ⟨?_, scaled_pos (by decide) (by decide)⟩
  have hpos : (0 : ℚ) < d * 10 ^ k := by positivity
  rw [Nat.pos_iff_ne_zero]
  intro h0
  rw [← decimal_ratio, h0, Nat.cast_zero, zero_div] at hpos
  exact hpos.false

namespace Binary64

/-- Decimals that a double stands for are read as it, unless they are far out of its range. -/
theorem ofDecimal_exact {d : Nat} {e : Int} (h : Representable (d * 10 ^ e))
    (hsmall : (decimalLength d : Int) + e ≤ 400) (hlarge : -400 ≤ (decimalLength d : Int) + e)
    (s : Bool) : (ofDecimal s d e).isFinite = true ∧
      (ofDecimal s d e).value = if s then -((d : ℚ) * 10 ^ e) else d * 10 ^ e := by
  by_cases hd : d = 0
  · rw [ofDecimal, if_pos hd, value_zero, hd, Nat.cast_zero, zero_mul, neg_zero, ite_self]
    exact ⟨rfl, rfl⟩
  obtain ⟨hnum, hden⟩ := decimal_pos (Nat.pos_of_ne_zero hd) e
  have hratio := decimal_ratio d e
  have hpos : (0 : ℚ) < d * 10 ^ e := by
    have : (0 : ℚ) < d := by exact_mod_cast Nat.pos_of_ne_zero hd
    positivity
  obtain ⟨m, e', hlt, hleast, hgreatest, heq⟩ := h
  rw [abs_of_pos hpos] at heq
  obtain ⟨m', e'', hof, -, hvalue⟩ :=
    ofRatio_exact hnum hden hlt hleast hgreatest (hratio.trans heq) s
  rw [ofDecimal, if_neg hd]
  simp only [if_neg (not_lt.mpr hsmall), if_neg (not_lt.mpr hlarge), hof]
  exact ⟨rfl, by rw [value_eq, hvalue, hratio]⟩

end Binary64

/-- The double that an integer's text stands for is the integer, if it has fewer than 16 digits. -/
theorem double_toString {n : Int} (h : n.natAbs < 10 ^ 15) {f : Form}
    (hf : form? (toString n).toList = some f) :
    f.double.isFinite = true ∧ f.double.value = n := by
  obtain rfl := Option.some.inj ((form?_toString n).symm.trans hf)
  have hlength : decimalLength n.natAbs ≤ 15 :=
    (Nat.length_toDigits_le_iff (by decide) (by decide)).mpr h
  have hrep : Binary64.Representable ((n.natAbs : ℚ) * 10 ^ (0 : Int)) := by
    rw [zpow_zero, mul_one]
    have hint := Binary64.representable_int (n := (n.natAbs : Int)) (by omega)
    rwa [Int.cast_natCast] at hint
  have hexact := Binary64.ofDecimal_exact hrep (by omega) (by omega) (decide (n < 0))
  simp only [Form.double, Option.getD_none, List.append_nil, List.length_nil, Nat.cast_zero,
    sub_zero, digitsValue_toDigits]
  refine ⟨hexact.1, hexact.2.trans ?_⟩
  rw [zpow_zero, mul_one]
  by_cases hneg : n < 0
  · rw [if_pos (decide_eq_true hneg), ← Int.cast_natCast, ← Int.cast_neg,
      show -(n.natAbs : Int) = n by omega]
  · rw [if_neg (by simpa using hneg), ← Int.cast_natCast, show (n.natAbs : Int) = n by omega]

end TableAudit.Number
