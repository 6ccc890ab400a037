import TableAudit.Number.Basic
import TableAudit.Proofs.Number.Rounding

/-!
# Exact arithmetic on doubles

Every operation on doubles rounds the exact result once. So where a double stands for the exact
result that is the outcome: sums, differences, products and quotients of doubles are then those of
the numbers that they stand for. Doubles are compared with each other and with integers by those
numbers, and rounded to the integers next to them. Twice a double is exact or infinite.
-/

namespace TableAudit.Number.Binary64

variable {x y : Binary64} {m : Nat} {e : Int}

/-- The numbers that some double stands for. -/
def Representable (x : ℚ) : Prop :=
  ∃ (m : Nat) (e : Int), m < 2 ^ 53 ∧ leastExponent ≤ e ∧ e ≤ greatestExponent ∧
    |x| = m * 2 ^ e

theorem representable_int {n : Int} (h : n.natAbs < 2 ^ 53) : Representable n :=
  ⟨n.natAbs, 0, h, by decide, by decide, by rw [zpow_zero, mul_one, Nat.cast_natAbs, Int.cast_abs]⟩

theorem value_zero (s : Bool) : (zero s).value = 0 := by
  cases s <;> simp [zero, value, signedMantissa]

theorem value_finite_nonneg (m : Nat) (e : Int) : (finite false m e).value = m * 2 ^ e := by
  simp [value, signedMantissa]

theorem abs_value (s : Bool) (m : Nat) (e : Int) : |(finite s m e).value| = m * 2 ^ e := by
  have hpos : (0 : ℚ) < 2 ^ e := by positivity
  cases s <;> simp [value, signedMantissa, abs_mul, abs_of_pos hpos]

/-- A double stands for its magnitude with the sign. -/
theorem value_eq (s : Bool) (m : Nat) (e : Int) :
    (finite s m e).value = if s then -((m : ℚ) * 2 ^ e) else m * 2 ^ e := by
  cases s <;> simp [value, signedMantissa]

/-- A number in units of a last place as a quotient of natural numbers. -/
theorem natAbs_ratio {n : Int} (hn : n ≠ 0) (e : Int) :
    0 < (scaled 2 n.natAbs 1 e).1 ∧ 0 < (scaled 2 n.natAbs 1 e).2 ∧
      ((scaled 2 n.natAbs 1 e).1 : ℚ) / (scaled 2 n.natAbs 1 e).2 = |(n : ℚ) * 2 ^ e| := by
  have hpos : (0 : ℚ) < 2 ^ e := by positivity
  have hratio : ((scaled 2 n.natAbs 1 e).1 : ℚ) / (scaled 2 n.natAbs 1 e).2 =
      |(n : ℚ) * 2 ^ e| := by
    rw [scaled_ratio (by decide), abs_mul, abs_of_pos hpos]
    simp
  refine ⟨?_, scaled_pos (by decide) (by decide), hratio⟩
  rw [Nat.pos_iff_ne_zero]
  intro h0
  rw [h0, Nat.cast_zero, zero_div, eq_comm, abs_eq_zero] at hratio
  exact hn (by exact_mod_cast (mul_eq_zero.mp hratio).resolve_right hpos.ne')

/-- The sign of an integer is that of the number in units of a last place. -/
theorem signed_abs (n e : Int) :
    (if n < 0 then -|(n : ℚ) * 2 ^ e| else |(n : ℚ) * 2 ^ e|) = n * 2 ^ e := by
  have hpos : (0 : ℚ) < 2 ^ e := by positivity
  split
  next h => rw [abs_of_neg (mul_neg_of_neg_of_pos (by exact_mod_cast h) hpos), neg_neg]
  next h => exact abs_of_nonneg (mul_nonneg (by exact_mod_cast not_lt.mp h) hpos.le)

/-- Rounding `n * 2 ^ e` changes nothing if a double stands for it. -/
theorem ofScaled_exact {n : Int} (h : Representable (n * 2 ^ e)) (z : Bool) :
    (ofScaled z n e).isFinite = true ∧ (ofScaled z n e).value = n * 2 ^ e := by
  by_cases hn : n = 0
  · rw [ofScaled, if_pos hn, value_zero, hn, Int.cast_zero, zero_mul]
    exact ⟨rfl, rfl⟩
  obtain ⟨m, e', hlt, hleast, hgreatest, heq⟩ := h
  obtain ⟨hnum, hden, hratio⟩ := natAbs_ratio hn e
  obtain ⟨m', e'', hof, -, hvalue⟩ := ofRatio_exact hnum hden hlt hleast hgreatest
    (hratio.trans heq) (n < 0)
  rw [ofScaled, if_neg hn, ← signed_abs n e]
  simp only [hof, isFinite, value_eq, hvalue, hratio, decide_eq_true_eq, true_and]

/-- Rounding moves a number below `2 ^ k` by at most `2 ^ (k - 54)`. -/
theorem ofScaled_near {n k : Int} (h : |(n : ℚ) * 2 ^ e| < 2 ^ k)
    (hleast : leastExponent + 53 ≤ k) (hgreatest : k ≤ greatestExponent + 52) (z : Bool) :
    (ofScaled z n e).isFinite = true ∧ |(ofScaled z n e).value - n * 2 ^ e| ≤ 2 ^ (k - 54) := by
  by_cases hn : n = 0
  · rw [ofScaled, if_pos hn, value_zero, hn, Int.cast_zero, zero_mul, sub_zero, abs_zero]
    exact ⟨rfl, by positivity⟩
  obtain ⟨hnum, hden, hratio⟩ := natAbs_ratio hn e
  obtain ⟨m, e', hof, hnear⟩ := ofRatio_near hnum hden (hratio ▸ h) hleast hgreatest (n < 0)
  rw [hratio] at hnear
  rw [ofScaled, if_neg hn]
  refine ⟨by rw [hof]; rfl, ?_⟩
  nth_rewrite 1 [← signed_abs n e]
  rw [hof, value_eq]
  by_cases hneg : n < 0
  · simp only [hneg, decide_true, if_true]
    rwa [neg_sub_neg, abs_sub_comm]
  · simpa only [hneg, decide_false, Bool.false_eq_true, if_false] using hnear

/-- What is less than half a unit of the last place beyond a power of two is not rounded beyond
it. -/
theorem ofScaled_le {n k : Int} (h : |(n : ℚ) * 2 ^ e| ≤ 2 ^ k + 2 ^ (k - 53))
    (hleast : leastExponent + 53 ≤ k) (hgreatest : k ≤ greatestExponent + 52) (z : Bool) :
    (ofScaled z n e).isFinite = true ∧ |(ofScaled z n e).value| ≤ 2 ^ k := by
  by_cases hn : n = 0
  · rw [ofScaled, if_pos hn, value_zero, abs_zero]
    exact ⟨rfl, by positivity⟩
  obtain ⟨hnum, hden, hratio⟩ := natAbs_ratio hn e
  obtain ⟨m, e', hof, hle⟩ := ofRatio_le hnum hden (hratio ▸ h) hleast hgreatest (n < 0)
  rw [ofScaled, if_neg hn]
  simp only [hof, abs_value]
  exact ⟨rfl, hle⟩

theorem ofInt_exact {n : Int} (h : Representable n) :
    (ofInt n).isFinite = true ∧ (ofInt n).value = n := by
  have hz : (n : ℚ) * 2 ^ (0 : Int) = n := by rw [zpow_zero, mul_one]
  have hexact := ofScaled_exact (e := 0) (hz.symm ▸ h) false
  rwa [hz] at hexact

theorem zpow_eq_shifted {a low : Int} (h : low ≤ a) :
    (2 : ℚ) ^ a = ((Int.pow 2 (a - low).toNat : Int) : ℚ) * 2 ^ low := by
  have hpow (n : Nat) : Int.pow 2 n = 2 ^ n := rfl
  rw [hpow, Int.cast_pow, Int.cast_ofNat, ← zpow_natCast, ← zpow_add₀ two_ne_zero]
  congr 1
  omega

/-- The sum of two numbers in units of the smaller of their last places. -/
theorem value_add_eq (s t : Bool) (m n : Nat) (e f : Int) :
    (finite s m e).value + (finite t n f).value =
      ((signedMantissa s m * Int.pow 2 (e - Min.min e f).toNat +
        signedMantissa t n * Int.pow 2 (f - Min.min e f).toNat : Int) : ℚ) *
          2 ^ (Min.min e f) := by
  simp only [value]
  rw [zpow_eq_shifted (min_le_left e f), zpow_eq_shifted (min_le_right e f)]
  push_cast
  ring

theorem add_exact (hx : x.isFinite = true) (hy : y.isFinite = true)
    (h : Representable (x.value + y.value)) :
    (x.add y).isFinite = true ∧ (x.add y).value = x.value + y.value := by
  match x, y, hx, hy with
  | finite s m e, finite t n f, _, _ =>
      rw [value_add_eq] at h ⊢
      exact ofScaled_exact h _

/-- Adding little to what is not beyond a power of two does not lead beyond it. -/
theorem add_le {k : Int} (hx : x.isFinite = true) (hy : y.isFinite = true)
    (hxk : |x.value| ≤ 2 ^ k) (hyk : |y.value| ≤ 2 ^ (k - 53))
    (hleast : leastExponent + 53 ≤ k) (hgreatest : k ≤ greatestExponent + 52) :
    (x.add y).isFinite = true ∧ |(x.add y).value| ≤ 2 ^ k := by
  have hsum := (abs_add_le x.value y.value).trans (add_le_add hxk hyk)
  match x, y, hx, hy with
  | finite s m e, finite t n f, _, _ =>
      rw [value_add_eq] at hsum
      exact ofScaled_le hsum hleast hgreatest _

theorem isFinite_neg : x.neg.isFinite = x.isFinite := by
  cases x <;> rfl

theorem value_neg : x.neg.value = -x.value := by
  match x with
  | nan => simp [neg, value]
  | infinity s => simp [neg, value]
  | finite s m e => cases s <;> simp [neg, value, signedMantissa]

theorem sub_exact (hx : x.isFinite = true) (hy : y.isFinite = true)
    (h : Representable (x.value - y.value)) :
    (x.sub y).isFinite = true ∧ (x.sub y).value = x.value - y.value := by
  rw [sub_eq_add_neg, ← value_neg] at h ⊢
  exact add_exact hx (isFinite_neg.trans hy) h

theorem value_mul_eq (s t : Bool) (m n : Nat) (e f : Int) :
    (finite s m e).value * (finite t n f).value =
      (signedMantissa (s != t) (m * n) : ℚ) * 2 ^ (e + f) := by
  rw [zpow_add₀ two_ne_zero]
  cases s <;> cases t <;> simp [value, signedMantissa] <;> ring

theorem mul_exact (hx : x.isFinite = true) (hy : y.isFinite = true)
    (h : Representable (x.value * y.value)) :
    (x.mul y).isFinite = true ∧ (x.mul y).value = x.value * y.value := by
  match x, y, hx, hy with
  | finite s m e, finite t n f, _, _ =>
      rw [value_mul_eq] at h ⊢
      exact ofScaled_exact h _

theorem mul_near {k : Int} (hx : x.isFinite = true) (hy : y.isFinite = true)
    (h : |x.value * y.value| < 2 ^ k) (hleast : leastExponent + 53 ≤ k)
    (hgreatest : k ≤ greatestExponent + 52) :
    (x.mul y).isFinite = true ∧ |(x.mul y).value - x.value * y.value| ≤ 2 ^ (k - 54) := by
  match x, y, hx, hy with
  | finite s m e, finite t n f, _, _ =>
      rw [value_mul_eq] at h ⊢
      exact ofScaled_near h hleast hgreatest _

/-- A product that is not beyond a power of two is not rounded beyond it. -/
theorem mul_le {k : Int} (hx : x.isFinite = true) (hy : y.isFinite = true)
    (h : |x.value * y.value| ≤ 2 ^ k) (hleast : leastExponent + 53 ≤ k)
    (hgreatest : k ≤ greatestExponent + 52) :
    (x.mul y).isFinite = true ∧ |(x.mul y).value| ≤ 2 ^ k := by
  match x, y, hx, hy with
  | finite s m e, finite t n f, _, _ =>
      rw [value_mul_eq] at h
      exact ofScaled_le (h.trans (le_add_of_nonneg_right (by positivity))) hleast hgreatest _

theorem value_div_eq {n : Nat} (hn : 0 < n) (s t : Bool) (m : Nat) (e f : Int) :
    |(finite s m e).value / (finite t n f).value| =
      ((scaled 2 m n (e - f)).1 : ℚ) / (scaled 2 m n (e - f)).2 := by
  have hn' : (n : ℚ) ≠ 0 := by exact_mod_cast hn.ne'
  rw [abs_div, abs_value, abs_value, scaled_ratio (by decide), Nat.cast_ofNat,
    zpow_sub₀ two_ne_zero]
  field_simp

/-- A quotient is negative if the signs differ. -/
theorem sign_div (s t : Bool) (m n : Nat) (e f : Int) :
    (if (s != t) = true then -|(finite s m e).value / (finite t n f).value|
      else |(finite s m e).value / (finite t n f).value|) =
        (finite s m e).value / (finite t n f).value := by
  have hquot : (0 : ℚ) ≤ m * 2 ^ e / (n * 2 ^ f) := by positivity
  rw [value_eq, value_eq]
  cases s <;> cases t <;> simp [neg_div, div_neg, abs_of_nonneg hquot]

theorem div_exact (hx : x.isFinite = true) (hy : y.isFinite = true) (hx0 : x.value ≠ 0)
    (hy0 : y.value ≠ 0) (h : Representable (x.value / y.value)) :
    (x.div y).isFinite = true ∧ (x.div y).value = x.value / y.value := by
  match x, y, hx, hy with
  | finite s m e, finite t n f, _, _ =>
      have hpos {m : Nat} {e : Int} {s : Bool} (h : (finite s m e).value ≠ 0) : 0 < m := by
        rw [Nat.pos_iff_ne_zero]
        rintro rfl
        exact h (by cases s <;> simp [value, signedMantissa])
      have hm := hpos hx0
      have hn := hpos hy0
      have hden : 0 < (scaled 2 m n (e - f)).2 := scaled_pos (by decide) hn
      have habs := value_div_eq hn s t m e f
      have hnum : 0 < (scaled 2 m n (e - f)).1 := by
        rw [Nat.pos_iff_ne_zero]
        intro h0
        rw [h0, Nat.cast_zero, zero_div, abs_eq_zero, div_eq_zero_iff] at habs
        exact habs.elim hx0 hy0
      obtain ⟨m', e', hlt, hleast, hgreatest, heq⟩ := h
      obtain ⟨m'', e'', hof, -, hvalue⟩ := ofRatio_exact hnum hden hlt hleast hgreatest
        (habs.symm.trans heq) (s != t)
      rw [div, if_neg hn.ne']
      simp only [hof, isFinite, true_and]
      rw [value_eq (s != t), hvalue, ← habs]
      exact sign_div s t m n e f

/-! ### Integers next to a double -/

theorem representable_finite {m : Nat} {e : Int} {s : Bool} (h : IsNormal m e) :
    Representable (finite s m e).value :=
  ⟨m, e, h.lt, h.least, h.greatest, abs_value s m e⟩

/-- The integer part of a number that a double stands for, and what is left of it, are such
numbers too. -/
theorem representable_floor {q : ℚ} (hq : 0 ≤ q) (h : Representable q) :
    Representable (⌊q⌋ : Int) ∧ Representable (q - ⌊q⌋) := by
  obtain ⟨m, e, hlt, hleast, hgreatest, heq⟩ := h
  rw [abs_of_nonneg hq] at heq
  have hfloor : (0 : ℚ) ≤ (⌊q⌋ : Int) := by exact_mod_cast Int.floor_nonneg.mpr hq
  have hrest : 0 ≤ q - ⌊q⌋ := sub_nonneg.mpr (Int.floor_le q)
  by_cases he : 0 ≤ e
  · -- the number is an integer
    have hwhole : (⌊q⌋ : ℚ) = q := by
      obtain ⟨n, rfl⟩ := Int.eq_ofNat_of_zero_le he
      have hint : q = ((m * 2 ^ n : Nat) : Int) := by
        rw [heq]
        push_cast
        rfl
      rw [hint, Int.floor_intCast]
    rw [hwhole, sub_self]
    exact ⟨⟨m, e, hlt, hleast, hgreatest, by rw [abs_of_nonneg hq, heq]⟩,
      ⟨0, e, by norm_num, hleast, hgreatest, by simp⟩⟩
  · obtain ⟨n, hn⟩ := Int.eq_ofNat_of_zero_le (show 0 ≤ -e by omega)
    obtain rfl : e = -(n : Int) := by omega
    have hquot : q = (m : ℚ) / (2 ^ n : Nat) := by
      rw [heq, zpow_neg, zpow_natCast, Nat.cast_pow, Nat.cast_ofNat, div_eq_mul_inv]
    have hpos : ((2 ^ n : Nat) : ℚ) ≠ 0 := by positivity
    have hwhole : (⌊q⌋ : ℚ) = (m / 2 ^ n : Nat) := by
      rw [hquot, Rat.floor_natCast_div_natCast]
      rfl
    have hpart : q - ⌊q⌋ = ((m % 2 ^ n : Nat) : ℚ) * 2 ^ (-(n : Int)) := by
      have hsplit : (m : ℚ) = (2 ^ n : Nat) * (m / 2 ^ n : Nat) + (m % 2 ^ n : Nat) := by
        exact_mod_cast (Nat.div_add_mod m (2 ^ n)).symm
      rw [hwhole, hquot, zpow_neg, zpow_natCast]
      push_cast at hsplit hpos ⊢
      field_simp
      linarith
    refine ⟨⟨m / 2 ^ n, 0, lt_of_le_of_lt (Nat.div_le_self ..) hlt, by decide, by decide, ?_⟩,
      ⟨m % 2 ^ n, -n, lt_of_le_of_lt (Nat.mod_le ..) hlt, hleast, hgreatest, ?_⟩⟩
    · rw [abs_of_nonneg hfloor, hwhole, zpow_zero, mul_one]
    · rw [abs_of_nonneg hrest, hpart]

/-- The magnitude of a finite double as a quotient. -/
theorem magnitude_ratio (m : Nat) (e : Int) :
    ((magnitude m e).1 : ℚ) / (magnitude m e).2 = m * 2 ^ e := by
  rw [magnitude, scaled_ratio (by decide), Nat.cast_one, div_one, Nat.cast_ofNat]

theorem magnitude_pos (m : Nat) (e : Int) : 0 < (magnitude m e).2 :=
  scaled_pos (by decide) (by decide)

theorem truncate?_of_nonneg (h : 0 ≤ x.value) (hx : x.isFinite = true) :
    x.truncate? = some ⌊x.value⌋ := by
  match x, hx with
  | finite s m e, _ =>
      have hfloor : (((magnitude m e).1 / (magnitude m e).2 : Nat) : Int) = ⌊(m : ℚ) * 2 ^ e⌋ := by
        rw [← magnitude_ratio, Rat.floor_natCast_div_natCast]
        rfl
      simp only [truncate?, Option.some.injEq]
      cases s with
      | false => rw [value_eq, if_neg (by decide), ← hfloor, signedMantissa, if_neg (by decide)]
      | true =>
          have hzero : (m : ℚ) * 2 ^ e = 0 := by
            rw [value_eq, if_pos rfl] at h
            have : (0 : ℚ) ≤ m * 2 ^ e := by positivity
            linarith
          rw [value_eq, if_pos rfl, hzero, neg_zero, Int.floor_zero, signedMantissa, if_pos rfl,
            hfloor, hzero, Int.floor_zero, neg_zero]

/-- Rounding to an integer moves a double by at most a half. -/
theorem roundEven?_near (hx : x.isFinite = true) :
    ∃ n : Int, x.roundEven? = some n ∧ |(n : ℚ) - x.value| ≤ 1 / 2 := by
  match x, hx with
  | finite s m e, _ =>
      refine ⟨_, rfl, ?_⟩
      have hnear := divEven_near (magnitude m e).1 (magnitude_pos m e)
      rw [magnitude_ratio] at hnear
      simp only [value, signedMantissa]
      cases s with
      | false =>
          rw [abs_sub_comm]
          exact_mod_cast hnear
      | true =>
          rw [if_pos rfl, if_pos rfl]
          push_cast
          rwa [neg_mul, sub_neg_eq_add, neg_add_eq_sub]

theorem isIntegral_iff (hx : x.isFinite = true) :
    x.isIntegral = true ↔ ∃ n : Int, x.value = n := by
  match x, hx with
  | finite s m e, _ =>
      have hpos : ((magnitude m e).2 : ℚ) ≠ 0 := by exact_mod_cast (magnitude_pos m e).ne'
      simp only [isIntegral, decide_eq_true_eq]
      constructor
      · intro h
        obtain ⟨n, hn⟩ := Nat.dvd_of_mod_eq_zero h
        have hvalue : (m : ℚ) * 2 ^ e = n := by
          rw [← magnitude_ratio, hn, Nat.cast_mul, mul_div_cancel_left₀ _ hpos]
        refine ⟨signedMantissa s n, ?_⟩
        cases s <;> simp [value_eq, signedMantissa, hvalue]
      · rintro ⟨n, hn⟩
        have hvalue : (m : ℚ) * 2 ^ e = n.natAbs := by
          rw [← abs_value s m e, hn, Nat.cast_natAbs, Int.cast_abs]
        rw [← magnitude_ratio, div_eq_iff hpos] at hvalue
        exact Nat.mod_eq_zero_of_dvd ⟨n.natAbs, by rw [mul_comm]; exact_mod_cast hvalue⟩

/-- An integer is rounded to an integer. -/
theorem ofInt_isIntegral {n : Int} (h : (ofInt n).isFinite = true) :
    (ofInt n).isIntegral = true := by
  by_cases hsmall : n.natAbs < 2 ^ 53
  · exact (isIntegral_iff h).mpr ⟨n, (ofInt_exact (representable_int hsmall)).2⟩
  obtain ⟨hnum, hden, hratio⟩ := natAbs_ratio (show n ≠ 0 by omega) 0
  rw [isIntegral_iff h]
  rw [ofInt, ofScaled, if_neg (by omega)] at h ⊢
  obtain ⟨s, m, e, hof⟩ : ∃ s m e, ofRatio (n < 0) (scaled 2 n.natAbs 1 0).1
      (scaled 2 n.natAbs 1 0).2 = .finite s m e := by
    simp only at h
    cases hof : ofRatio (n < 0) (scaled 2 n.natAbs 1 0).1 (scaled 2 n.natAbs 1 0).2 with
    | finite s m e => exact ⟨s, m, e, rfl⟩
    | _ => simp [hof, isFinite] at h
  obtain ⟨-, hnormal, hpower⟩ := ofRatio_spec (k := 53) hnum hden hof
  have hlarge : (2 : ℚ) ^ (53 : Int) ≤ m * 2 ^ e := by
    refine hpower (by decide) ?_
    rw [hratio, zpow_zero, mul_one]
    have habs : (2 ^ 53 : Int) ≤ |n| := by
      rw [Int.abs_eq_natAbs]
      omega
    exact_mod_cast habs
  -- the mantissa alone is not large enough
  have he : 0 ≤ e := by
    by_contra hneg
    have hpow : (2 : ℚ) ^ e ≤ 1 := zpow_le_one_of_nonpos₀ one_le_two (by omega)
    have hmant : (m : ℚ) < 2 ^ (53 : Int) := by exact_mod_cast hnormal.lt
    have hle : (m : ℚ) * 2 ^ e ≤ m := mul_le_of_le_one_right (by positivity) hpow
    linarith
  obtain ⟨k, rfl⟩ := Int.eq_ofNat_of_zero_le he
  refine ⟨signedMantissa s m * 2 ^ k, ?_⟩
  simp only [hof, value]
  push_cast
  rfl

/-! ### The order of doubles -/

theorem compareScaled_lt_iff {a b e f : Int} :
    compareScaled a e b f = .lt ↔ (a : ℚ) * 2 ^ e < b * 2 ^ f := by
  have hpos : (0 : ℚ) < 2 ^ Min.min e f := by positivity
  rw [zpow_eq_shifted (min_le_left e f), zpow_eq_shifted (min_le_right e f), ← mul_assoc,
    ← mul_assoc, mul_lt_mul_iff_left₀ hpos, compareScaled, Int.compare_eq_lt]
  norm_cast

theorem compareScaled_gt_iff {a b e f : Int} :
    compareScaled a e b f = .gt ↔ (b : ℚ) * 2 ^ f < a * 2 ^ e := by
  have hpos : (0 : ℚ) < 2 ^ Min.min e f := by positivity
  rw [zpow_eq_shifted (min_le_left e f), zpow_eq_shifted (min_le_right e f), ← mul_assoc,
    ← mul_assoc, mul_lt_mul_iff_left₀ hpos, compareScaled, Int.compare_eq_gt]
  norm_cast

theorem compareInt?_lt_iff (hx : x.isFinite = true) (n : Int) :
    x.compareInt? n = some .lt ↔ x.value < n := by
  match x, hx with
  | finite s m e, _ =>
      rw [compareInt?, Option.some.injEq, compareScaled_lt_iff, zpow_zero, mul_one]
      rfl

theorem compareInt?_gt_iff (hx : x.isFinite = true) (n : Int) :
    x.compareInt? n = some .gt ↔ n < x.value := by
  match x, hx with
  | finite s m e, _ =>
      rw [compareInt?, Option.some.injEq, compareScaled_gt_iff, zpow_zero, mul_one]
      rfl

/-! ### Twice a double -/

/-- Every double is less than `2 ^ 1024`. -/
theorem Representable.lt {q : ℚ} (h : Representable q) : |q| < 2 ^ (1024 : Int) := by
  obtain ⟨m, e, hlt, -, hgreatest, heq⟩ := h
  rw [heq]
  calc
    (m : ℚ) * 2 ^ e < 2 ^ (53 : Int) * 2 ^ e := by
      gcongr
      exact_mod_cast hlt
    _ = 2 ^ (53 + e) := (zpow_add₀ two_ne_zero ..).symm
    _ ≤ 2 ^ (1024 : Int) := by
      rw [greatestExponent] at hgreatest
      exact zpow_le_zpow_right₀ one_le_two (by omega)

theorem ofRatio_cases (s : Bool) (num den : Nat) :
    (∃ m e, ofRatio s num den = .finite s m e) ∨ ofRatio s num den = .infinity s := by
  unfold ofRatio
  split
  · exact Or.inl ⟨_, _, rfl⟩
  · dsimp only
    generalize ite (divEven _ _ = Nat.pow 2 53) _ _ = r
    split
    · exact Or.inr rfl
    · exact Or.inl ⟨_, _, rfl⟩

/-- What is not less than `2 ^ 1024` is rounded to infinity. -/
theorem ofScaled_infinite {n : Int} (h : (2 : ℚ) ^ (1024 : Int) ≤ n * 2 ^ e) (z : Bool) :
    ofScaled z n e = .infinity false := by
  have hpos : (0 : ℚ) < 2 ^ e := by positivity
  have hprod : (0 : ℚ) < n * 2 ^ e := lt_of_lt_of_le (by positivity) h
  have hn : 0 < n := by exact_mod_cast pos_of_mul_pos_left hprod hpos.le
  obtain ⟨hnum, hden, hratio⟩ := natAbs_ratio hn.ne' e
  rw [abs_of_pos hprod] at hratio
  rw [ofScaled, if_neg hn.ne', decide_eq_false hn.not_gt]
  refine (ofRatio_cases ..).resolve_left ?_
  rintro ⟨m, e', hof⟩
  obtain ⟨-, hnormal, hpower⟩ := ofRatio_spec (k := 1024) hnum hden hof
  have hsmall := (representable_finite (s := false) hnormal).lt
  rw [abs_value] at hsmall
  exact hsmall.not_ge (hpower (by decide) (hratio ▸ h))

theorem mul_infinite (hx : x.isFinite = true) (hy : y.isFinite = true)
    (h : (2 : ℚ) ^ (1024 : Int) ≤ x.value * y.value) : x.mul y = .infinity false := by
  match x, y, hx, hy with
  | finite s m e, finite t n f, _, _ =>
      rw [value_mul_eq] at h
      exact ofScaled_infinite h _

/-- A number that is a double stays one when it is doubled, as long as it is in the range. -/
theorem representable_double {q : ℚ} (h : Representable q) :
    Representable (q * 2) ∨ (2 : ℚ) ^ (1024 : Int) ≤ |q * 2| := by
  obtain ⟨m, e, hlt, hleast, hgreatest, heq⟩ := h
  have habs : |q * 2| = m * 2 ^ (e + 1) := by
    rw [abs_mul, heq, zpow_add_one₀ two_ne_zero, abs_two, mul_assoc]
  by_cases he : e < greatestExponent
  · exact Or.inl ⟨m, e + 1, hlt, by omega, by omega, habs⟩
  by_cases hm : m < 2 ^ 52
  · refine Or.inl ⟨m * 2, e, by omega, hleast, hgreatest, ?_⟩
    rw [habs, zpow_add_one₀ two_ne_zero]
    push_cast
    ring
  · right
    rw [habs, show e + 1 = (972 : Int) by rw [greatestExponent] at he hgreatest; omega]
    calc
      (2 : ℚ) ^ (1024 : Int) = 2 ^ (52 : Int) * 2 ^ (972 : Int) := by
        rw [← zpow_add₀ two_ne_zero]
        norm_num
      _ ≤ m * 2 ^ (972 : Int) := by
        gcongr
        exact_mod_cast not_lt.mp hm

/-- Twice a double is exact, or infinite where it is beyond the range. -/
theorem mul_two (hx : x.isFinite = true) (h : Representable x.value) (h0 : 0 ≤ x.value) :
    (x.mul (ofInt 2)).isFinite = true ∧ (x.mul (ofInt 2)).value = x.value * 2 ∧
        Representable (x.value * 2) ∨
      x.mul (ofInt 2) = .infinity false ∧ (2 : ℚ) ^ (1024 : Int) ≤ x.value * 2 := by
  obtain ⟨htwo, hvalue⟩ := ofInt_exact (representable_int (n := 2) (by decide))
  rw [Int.cast_ofNat] at hvalue
  obtain hrep | hlarge := representable_double h
  · obtain ⟨hfinite, heq⟩ := mul_exact hx htwo (hvalue.symm ▸ hrep)
    exact Or.inl ⟨hfinite, hvalue ▸ heq, hrep⟩
  · rw [abs_of_nonneg (mul_nonneg h0 zero_le_two)] at hlarge
    exact Or.inr ⟨mul_infinite hx htwo (by rwa [hvalue]), hlarge⟩

end TableAudit.Number.Binary64

/-! ### Integers beside doubles -/

namespace TableAudit.Number

variable {a b : Number}

/-- The number is an integer or a finite double. -/
def IsFinite : Number → Prop
  | .int _ => True
  | .float x => x.isFinite = true

/-- The exact value of a finite number. -/
def value : Number → ℚ
  | .int n => n
  | .float x => x.value

/-- Numbers are ordered by their exact values. -/
theorem lt_iff (ha : a.IsFinite) (hb : b.IsFinite) : a.lt b = true ↔ a.value < b.value := by
  rw [lt, beq_iff_eq]
  match a, b, ha, hb with
  | .int m, .int n, _, _ => simp [compare?, value, Int.compare_eq_lt]
  | .int m, .float y, _, hy =>
      rw [value, value, ← Binary64.compareInt?_gt_iff hy, compare?]
      cases y.compareInt? m with
      | none => simp
      | some o => cases o <;> simp
  | .float x, .int n, hx, _ => exact Binary64.compareInt?_lt_iff hx n
  | .float (.finite s m e), .float (.finite t n f), _, _ =>
      rw [compare?, Binary64.compare?, Option.some.injEq, Binary64.compareScaled_lt_iff]
      rfl

theorem min_spec (ha : a.IsFinite) (hb : b.IsFinite) :
    (a.min b).IsFinite ∧ (a.min b).value = Min.min a.value b.value := by
  rw [Number.min]
  split
  next h => exact ⟨hb, (min_eq_right ((lt_iff hb ha).mp h).le).symm⟩
  next h => exact ⟨ha, (min_eq_left (not_lt.mp fun hlt => h ((lt_iff hb ha).mpr hlt))).symm⟩

/-- Infinity is greater than every finite number. -/
theorem min_infinity (hb : b.IsFinite) : (Number.float (.infinity false)).min b = b := by
  match b, hb with
  | .int n, _ => rfl
  | .float (.finite s m e), _ => rfl

end TableAudit.Number
