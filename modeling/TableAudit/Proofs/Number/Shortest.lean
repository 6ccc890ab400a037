import Mathlib.Data.Nat.Cast.Order.Field
import TableAudit.Proofs.Number.Digits

/-!
# The shortest decimal of a double

The digits with which a double is written lie among the numbers that are rounded to it, so reading
them gives the double back. They are looked for on ever finer decimal grids, and eighteen grids are
enough: from the first digit of the double on, the last grid is finer than the gap between
neighbouring doubles.
-/

namespace TableAudit.Number

variable {num den d n : Nat} {e k p q : Int}

theorem divEven_mem (num den : Nat) :
    divEven num den = num / den ∨ divEven num den = num / den + 1 := by
  simp only [divEven]
  split
  · exact Or.inl rfl
  · split
    · exact Or.inr rfl
    · split
      · exact Or.inl rfl
      · exact Or.inr rfl

/-- Powers of ten below powers of two: `10 ^ 3` lies below `2 ^ 10`, and `10 ^ 13` above
`2 ^ 43`. -/
theorem ten_zpow_le (h : 0 ≤ q ∧ 10 * q ≤ 3 * p ∨ q < 0 ∧ 43 * q ≤ 13 * p) :
    (10 : ℚ) ^ q ≤ 2 ^ p := by
  obtain ⟨hq, h⟩ | ⟨hq, h⟩ := h
  · refine le_of_pow_le_pow_left₀ (n := 3) (by decide) (by positivity) ?_
    obtain ⟨n, rfl⟩ := Int.eq_ofNat_of_zero_le hq
    calc
      ((10 : ℚ) ^ (n : Int)) ^ 3 = (10 ^ 3) ^ n := by
        rw [zpow_natCast, ← pow_mul, ← pow_mul, mul_comm]
      _ ≤ (2 ^ 10) ^ n := by gcongr; norm_num
      _ = 2 ^ (10 * (n : Int)) := by rw [← pow_mul]; norm_cast
      _ ≤ 2 ^ (p * 3) := zpow_le_zpow_right₀ one_le_two (by omega)
      _ = ((2 : ℚ) ^ p) ^ 3 := by rw [zpow_mul]; norm_cast
  · refine le_of_pow_le_pow_left₀ (n := 13) (by decide) (by positivity) ?_
    obtain ⟨n, hn⟩ := Int.eq_ofNat_of_zero_le (show 0 ≤ -q by omega)
    obtain rfl : q = -n := by omega
    calc
      ((10 : ℚ) ^ (-n : Int)) ^ 13 = ((10 ^ 13) ^ n)⁻¹ := by
        rw [zpow_neg, inv_pow, zpow_natCast, ← pow_mul, ← pow_mul, mul_comm]
      _ ≤ ((2 ^ 43) ^ n)⁻¹ := by gcongr; norm_num
      _ = 2 ^ (-(43 * (n : Int))) := by rw [← pow_mul, zpow_neg]; norm_cast
      _ ≤ 2 ^ (p * 13) := zpow_le_zpow_right₀ one_le_two (by omega)
      _ = ((2 : ℚ) ^ p) ^ 13 := by rw [zpow_mul]; norm_cast

/-- The number of digits of a number tells its size. -/
theorem decimalLength_bounds (hd : 0 < d) :
    (10 : ℚ) ^ ((decimalLength d : Int) - 1) ≤ d ∧ (d : ℚ) < 10 ^ (decimalLength d : Int) := by
  have hlength (k : Nat) (hk : 0 < k) : decimalLength d ≤ k ↔ d < 10 ^ k :=
    Nat.length_toDigits_le_iff (by decide) hk
  have hpos : 0 < decimalLength d := List.length_pos_iff.mpr Nat.toDigits_ne_nil
  constructor
  · obtain ⟨l, hl⟩ : ∃ l, decimalLength d = l + 1 := ⟨decimalLength d - 1, by omega⟩
    rw [hl, Nat.cast_add_one, add_sub_cancel_right, zpow_natCast]
    obtain rfl | hl0 := Nat.eq_zero_or_pos l
    · simpa using Nat.one_le_iff_ne_zero.mpr hd.ne'
    · have : 10 ^ l ≤ d := not_lt.mp fun h => by have := (hlength l hl0).mpr h; omega
      exact_mod_cast this
  · rw [zpow_natCast]
    exact_mod_cast (hlength _ hpos).mp le_rfl

/-- The decimals of a number in the range of doubles are computed. -/
theorem size_le_of_lt (hd : 0 < d) (h : (d : ℚ) * 10 ^ k < 2 ^ (1024 : Int)) :
    (decimalLength d : Int) + k ≤ 400 := by
  have hlow := (decimalLength_bounds hd).1
  have hpower : (10 : ℚ) ^ ((decimalLength d : Int) - 1 + k) < 10 ^ (310 : Int) := by
    calc
      (10 : ℚ) ^ ((decimalLength d : Int) - 1 + k)
          = 10 ^ ((decimalLength d : Int) - 1) * 10 ^ k := zpow_add₀ (by norm_num) ..
      _ ≤ d * 10 ^ k := by gcongr
      _ < 2 ^ (1024 : Int) := h
      _ ≤ 10 ^ (310 : Int) := by
        have hinv := ten_zpow_le (q := -310) (p := -1024) (by omega)
        rwa [zpow_neg, zpow_neg, inv_le_inv₀ (by positivity) (by positivity)] at hinv
  have := (zpow_lt_zpow_iff_right₀ (by norm_num)).mp hpower
  omega

/-- Zeros at the end of the digits move to the exponent. -/
theorem Decimal.stripZeros_spec (d : Decimal) (hd : 0 < d.digits) : 0 < d.stripZeros.digits ∧
    (d.stripZeros.digits : ℚ) * 10 ^ d.stripZeros.exponent = d.digits * 10 ^ d.exponent := by
  fun_induction Decimal.stripZeros d with
  | case1 d h ih =>
      obtain ⟨hpos, hvalue⟩ := ih (Nat.div_pos (by omega) (by decide))
      refine ⟨hpos, hvalue.trans ?_⟩
      have hten : (d.digits : ℚ) = 10 * (d.digits / 10 : Nat) := by
        exact_mod_cast (Nat.mul_div_cancel' (Nat.dvd_of_mod_eq_zero h.2)).symm
      rw [hten, zpow_add_one₀ (by norm_num)]
      ring
  | case2 => exact ⟨hd, rfl⟩

namespace Binary64

variable {m : Nat} {fuel : Nat}

/-- The search for the first digit of a number does not begin above it. -/
theorem decimalMagnitude_le (hden : 0 < den) (hv : (2 : ℚ) ^ p ≤ num / den)
    (hp : p = (num.log2 : Int) - den.log2) (hlow : -1100 ≤ p) (hhigh : p ≤ 1100) :
    (10 : ℚ) ^ decimalMagnitude num den ≤ num / den := by
  have habove (k : Int) (h : (scaled 10 num den (-k)).2 ≤ (scaled 10 num den (-k)).1) :
      (10 : ℚ) ^ k ≤ num / den := by
    have hpos : (0 : ℚ) < (scaled 10 num den (-k)).2 := by
      exact_mod_cast scaled_pos (by decide) hden
    have hratio := scaled_ratio (show 0 < 10 by decide) num den (-k)
    rwa [← Nat.cast_le (α := ℚ), ← one_le_div₀ hpos, hratio, Nat.cast_ofNat, zpow_neg,
      ← div_eq_mul_inv, one_le_div₀ (by positivity)] at h
  obtain ⟨guess, hguess⟩ : ∃ guess, guess = p * 30103 / 100000 := ⟨_, rfl⟩
  simp only [decimalMagnitude, ← hp, ← hguess, decide_eq_true_eq]
  split
  next h => exact habove _ h
  next =>
    split
    next h => exact habove _ h
    next =>
      split
      next h => exact habove _ h
      next =>
        split
        next h => exact habove _ h
        next => exact (ten_zpow_le (by omega)).trans hv

theorem ratio_le_iff {a b c d : Nat} (hb : 0 < b) (hd : 0 < d) :
    a * d ≤ c * b ↔ (a : ℚ) / b ≤ c / d := by
  rw [div_le_div_iff₀ (by exact_mod_cast hb) (by exact_mod_cast hd)]
  exact_mod_cast Iff.rfl

theorem ratio_lt_iff {a b c d : Nat} (hb : 0 < b) (hd : 0 < d) :
    a * d < c * b ↔ (a : ℚ) / b < c / d := by
  rw [← not_le, ratio_le_iff hd hb, not_le]

/-- The bounds of the numbers that are rounded to a double, as quotients. -/
theorem roundingBounds_spec (hm : 0 < m) (e : Int) :
    ((scaled 2 (roundingBounds m e).1 4 e).1 : ℚ) / (scaled 2 (roundingBounds m e).1 4 e).2 =
        (m - gapBelow m e) * 2 ^ e ∧
      ((scaled 2 (roundingBounds m e).2 4 e).1 : ℚ) / (scaled 2 (roundingBounds m e).2 4 e).2 =
        (m + 1 / 2) * 2 ^ e := by
  have hlow : ((roundingBounds m e).1 : ℚ) = 4 * (m - gapBelow m e) := by
    simp only [roundingBounds, gapBelow, Nat.pow_eq]
    split
    · rw [Nat.cast_sub (by omega)]
      push_cast
      ring
    · rw [Nat.cast_sub (by omega)]
      push_cast
      ring
  have hhigh : ((roundingBounds m e).2 : ℚ) = 4 * (m + 1 / 2) := by
    simp only [roundingBounds]
    push_cast
    ring
  rw [scaled_ratio (by decide), scaled_ratio (by decide), hlow, hhigh]
  constructor <;> push_cast <;> ring

/-- The check of a decimal decides whether it is rounded to the double. -/
theorem readsBack_iff (hm : 0 < m) (d : Nat) (k : Int) :
    readsBack m e d k = true ↔ RoundsTo (d * 10 ^ k) m e := by
  obtain ⟨hlow, hhigh⟩ := roundingBounds_spec hm e
  have hl : 0 < (scaled 2 (roundingBounds m e).1 4 e).2 := scaled_pos (by decide) (by decide)
  have hh : 0 < (scaled 2 (roundingBounds m e).2 4 e).2 := scaled_pos (by decide) (by decide)
  have hd : 0 < (scaled 10 d 1 k).2 := scaled_pos (by decide) (by decide)
  simp only [readsBack, RoundsTo, ← hlow, ← hhigh, ← decimal_ratio]
  split
  · rw [Bool.and_eq_true, decide_eq_true_eq, decide_eq_true_eq, ratio_le_iff hl hd,
      ratio_le_iff hd hh]
  · rw [Bool.and_eq_true, decide_eq_true_eq, decide_eq_true_eq, ratio_lt_iff hl hd,
      ratio_lt_iff hd hh]

theorem onGrid?_spec {d : Decimal} (hm : 0 < m) (h : onGrid? m e k = some d) :
    RoundsTo (d.digits * 10 ^ d.exponent) m e := by
  simp only [onGrid?, Bool.and_eq_true] at h
  split at h
  next hboth =>
    cases h
    obtain heq | heq := divEven_mem (scaled 10 (magnitude m e).1 (magnitude m e).2 (-k)).1
      (scaled 10 (magnitude m e).1 (magnitude m e).2 (-k)).2
    · exact (readsBack_iff hm _ _).mp (by rw [heq]; exact hboth.1)
    · exact (readsBack_iff hm _ _).mp (by rw [heq]; exact hboth.2)
  next =>
    split at h
    next hlow =>
      cases h
      exact (readsBack_iff hm _ _).mp hlow
    next =>
      split at h
      next hhigh =>
        cases h
        exact (readsBack_iff hm _ _).mp hhigh
      next => cases h

theorem roundsTo_of_between {x : ℚ} (hlow : (m - gapBelow m e) * 2 ^ e < x)
    (hhigh : x < (m + 1 / 2) * 2 ^ e) : RoundsTo x m e := by
  unfold RoundsTo
  split
  · exact ⟨hlow.le, hhigh.le⟩
  · exact ⟨hlow, hhigh⟩

/-- A grid that is finer than the gap between doubles holds a decimal that reads back. -/
theorem onGrid?_isSome (hm : 0 < m) (hk : (10 : ℚ) ^ k < 3 / 4 * 2 ^ e) :
    (onGrid? m e k).isSome = true := by
  obtain ⟨s, hs⟩ : ∃ s, s = scaled 10 (magnitude m e).1 (magnitude m e).2 (-k) := ⟨_, rfl⟩
  have hden : 0 < s.2 := by
    rw [hs]
    exact scaled_pos (by decide) (magnitude_pos m e)
  have hpos : (0 : ℚ) < 10 ^ k := by positivity
  have hquot : (s.1 : ℚ) / s.2 = m * 2 ^ e / 10 ^ k := by
    rw [hs, scaled_ratio (by decide), magnitude_ratio, Nat.cast_ofNat, zpow_neg, div_eq_mul_inv]
  -- the two neighbours of the double on the grid
  have hlow : ((s.1 / s.2 : Nat) : ℚ) * 10 ^ k ≤ m * 2 ^ e := by
    rw [← le_div_iff₀ hpos, ← hquot]
    exact Nat.cast_div_le
  have hhigh : (m : ℚ) * 2 ^ e < ((s.1 / s.2 + 1 : Nat) : ℚ) * 10 ^ k := by
    rw [← div_lt_iff₀ hpos, ← hquot, div_lt_iff₀ (by exact_mod_cast hden)]
    exact_mod_cast Nat.lt_mul_of_div_lt (Nat.lt_succ_self _) hden
  have hgap : (1 : ℚ) / 4 ≤ gapBelow m e := by
    unfold gapBelow
    split <;> norm_num
  have hunit : (0 : ℚ) < 2 ^ e := by positivity
  have hone : readsBack m e (s.1 / s.2) k = true ∨ readsBack m e (s.1 / s.2 + 1) k = true := by
    rw [readsBack_iff hm, readsBack_iff hm]
    by_cases hnear : (m - gapBelow m e : ℚ) * 2 ^ e < (s.1 / s.2 : Nat) * 10 ^ k
    · refine Or.inl (roundsTo_of_between hnear (hlow.trans_lt ?_))
      gcongr
      linarith
    · refine Or.inr (roundsTo_of_between (lt_of_le_of_lt ?_ hhigh) ?_)
      · have := gapBelow_pos m e
        gcongr
        linarith
      · push_cast at hnear ⊢
        nlinarith
  simp only [onGrid?, ← hs]
  obtain h | h := hone
  · simp only [h, Bool.true_and]
    split <;> rfl
  · simp only [h, Bool.and_true]
    split
    · rfl
    · rfl

theorem searchGrid_spec (hm : 0 < m) {j : Nat} (hj : j < fuel)
    (h : (onGrid? m e (k - j)).isSome = true) :
    RoundsTo ((searchGrid m e fuel k).digits * 10 ^ (searchGrid m e fuel k).exponent) m e := by
  induction fuel generalizing k j with
  | zero => cases hj
  | succ fuel ih =>
      simp only [searchGrid]
      split
      next d hd => exact onGrid?_spec hm hd
      next hnone =>
        obtain ⟨j, rfl⟩ : ∃ i, j = i + 1 := by
          refine Nat.exists_eq_add_one_of_ne_zero ?_
          rintro rfl
          rw [Nat.cast_zero, sub_zero, hnone] at h
          cases h
        refine ih (Nat.lt_of_succ_lt_succ hj) ?_
        rwa [Nat.cast_add_one, add_comm (j : Int), ← sub_sub] at h

theorem log2_shifted (hm : 0 < m) (n : Nat) : (m * 2 ^ n).log2 = m.log2 + n := by
  rw [Nat.log2_eq_iff (by positivity)]
  have hlow := Nat.log2_self_le hm.ne'
  have hhigh := Nat.lt_log2_self (n := m)
  constructor
  · rw [pow_add]
    gcongr
  · rw [add_right_comm, pow_add]
    gcongr

/-- The sizes of numerator and denominator tell the size of a double. -/
theorem magnitude_log2 (hm : 0 < m) (e : Int) :
    ((magnitude m e).1.log2 : Int) - (magnitude m e).2.log2 = m.log2 + e := by
  simp only [magnitude, scaled, Nat.pow_eq]
  split
  · rw [log2_shifted hm, show Nat.log2 1 = 0 by decide]
    omega
  · rw [one_mul]
    simp only [Nat.log2_two_pow]
    omega

theorem two_zpow_log2_le (hm : 0 < m) (e : Int) : (2 : ℚ) ^ (m.log2 + e) ≤ m * 2 ^ e := by
  rw [zpow_add₀ two_ne_zero, zpow_natCast]
  gcongr
  exact_mod_cast Nat.log2_self_le hm.ne'

theorem RoundsTo.pos {x : ℚ} (h : RoundsTo x m e) (hm : 0 < m) : 0 < x := by
  have hone : (1 : ℚ) ≤ m := by exact_mod_cast hm
  have hgap := gapBelow_le m e
  refine lt_of_lt_of_le ?_ h.bounds.1
  have : (0 : ℚ) < m - gapBelow m e := by linarith
  positivity

theorem digits_pos (hm : 0 < m) (h : RoundsTo (d * 10 ^ k) m e) : 0 < d := by
  have hpos := h.pos hm
  rw [Nat.pos_iff_ne_zero]
  rintro rfl
  rw [Nat.cast_zero, zero_mul] at hpos
  exact hpos.false

/-- The search for the shortest decimal of a double finds one that reads back. -/
theorem shortest_spec (hm : 0 < m) (h : IsNormal m e) : 0 < (shortest m e).digits ∧
    RoundsTo ((shortest m e).digits * 10 ^ (shortest m e).exponent) m e := by
  obtain ⟨k, hk⟩ : ∃ k, k = decimalMagnitude (magnitude m e).1 (magnitude m e).2 := ⟨_, rfl⟩
  have hlog : m.log2 < 53 := (Nat.log2_lt hm.ne').mpr h.lt
  have hfirst : (10 : ℚ) ^ k ≤ m * 2 ^ e := by
    have hle := two_zpow_log2_le hm e
    have hleast : -1074 ≤ e := h.least
    have hgreatest : e ≤ 971 := h.greatest
    rw [hk, ← magnitude_ratio]
    rw [← magnitude_ratio] at hle
    exact decimalMagnitude_le (magnitude_pos m e) hle (magnitude_log2 hm e).symm (by omega)
      (by omega)
  -- the last grid is finer than the gap to the next double
  have hfine : (10 : ℚ) ^ (k - (17 : Nat)) < 3 / 4 * 2 ^ e := by
    have hunit : (0 : ℚ) < 2 ^ e := by positivity
    have hlt : (m : ℚ) < 2 ^ 53 := by exact_mod_cast h.lt
    rw [zpow_sub₀ (by norm_num), div_lt_iff₀ (by positivity)]
    calc
      (10 : ℚ) ^ k ≤ m * 2 ^ e := hfirst
      _ < 2 ^ 53 * 2 ^ e := by gcongr
      _ ≤ 3 / 4 * 2 ^ e * 10 ^ ((17 : Nat) : Int) := by
        rw [mul_right_comm]
        gcongr
        norm_num
  have hround := searchGrid_spec hm (show _ < 18 by decide) (onGrid?_isSome hm hfine)
  obtain ⟨hpos, hvalue⟩ := Decimal.stripZeros_spec _ (digits_pos hm hround)
  simp only [shortest, ← hk]
  exact ⟨hpos, hvalue ▸ hround⟩

/-- No double is so large that its decimals are not computed. -/
theorem RoundsTo.size_le (h : RoundsTo (d * 10 ^ k) m e) (hnormal : IsNormal m e) (hd : 0 < d) :
    (decimalLength d : Int) + k ≤ 400 := by
  have hgreatest : e ≤ 971 := hnormal.greatest
  have hlt : (m : ℚ) + 1 / 2 < 2 ^ (53 : Int) := by
    have hle : (m : ℚ) + 1 ≤ 2 ^ 53 := by exact_mod_cast hnormal.lt
    norm_num at hle ⊢
    linarith
  refine size_le_of_lt hd ?_
  calc
    (d : ℚ) * 10 ^ k ≤ (m + 1 / 2) * 2 ^ e := h.bounds.2
    _ < 2 ^ (53 : Int) * 2 ^ e := by gcongr
    _ = 2 ^ (53 + e) := (zpow_add₀ two_ne_zero ..).symm
    _ ≤ 2 ^ (1024 : Int) := zpow_le_zpow_right₀ one_le_two (by omega)

/-- No double but zero is so small that its decimals are not computed. -/
theorem RoundsTo.le_size (h : RoundsTo (d * 10 ^ k) m e) (hm : 0 < m) (hnormal : IsNormal m e) :
    -400 ≤ (decimalLength d : Int) + k := by
  have hten : (0 : ℚ) < 10 ^ k := by positivity
  have hleast : -1074 ≤ e := hnormal.least
  have hhalf : (1 : ℚ) / 2 ≤ m - gapBelow m e := by
    have hone : (1 : ℚ) ≤ m := by exact_mod_cast hm
    have hgap := gapBelow_le m e
    linarith
  have hhigh := (decimalLength_bounds (digits_pos hm h)).2
  have hpower : (10 : ℚ) ^ (-400 : Int) < 10 ^ ((decimalLength d : Int) + k) := by
    calc
      (10 : ℚ) ^ (-400 : Int) ≤ 2 ^ (e - 1) := ten_zpow_le (by omega)
      _ = 1 / 2 * 2 ^ e := by
        rw [zpow_sub_one₀ two_ne_zero]
        ring
      _ ≤ (m - gapBelow m e) * 2 ^ e := by gcongr
      _ ≤ d * 10 ^ k := h.bounds.1
      _ < 10 ^ (decimalLength d : Int) * 10 ^ k := by gcongr
      _ = 10 ^ ((decimalLength d : Int) + k) := (zpow_add₀ (by norm_num) ..).symm
  have := (zpow_lt_zpow_iff_right₀ (by norm_num)).mp hpower
  omega

/-- Decimals that are rounded to a double are read as it. -/
theorem ofDecimal_of_roundsTo (hm : 0 < m) (h : IsNormal m e) (hround : RoundsTo (d * 10 ^ k) m e)
    (s : Bool) : ofDecimal s d k = .finite s m e := by
  have hd := digits_pos hm hround
  have hlarge := hround.size_le h hd
  have hsmall := hround.le_size hm h
  obtain ⟨hnum, hden⟩ := decimal_pos hd k
  rw [← decimal_ratio] at hround
  rw [ofDecimal, if_neg hd.ne']
  simp only [if_neg (not_lt.mpr hlarge), if_neg (not_lt.mpr hsmall)]
  exact ofRatio_of_roundsTo hnum hden h hround s

/-- Decimals below a power of two are not read as a double beyond it. -/
theorem ofDecimal_le (h : (d : ℚ) * 10 ^ k < 2 ^ p) (hleast : leastExponent + 53 ≤ p)
    (hgreatest : p ≤ greatestExponent + 52) (s : Bool) :
    (ofDecimal s d k).isFinite = true ∧ |(ofDecimal s d k).value| ≤ 2 ^ p := by
  have hzero : (zero s).isFinite = true ∧ |(zero s).value| ≤ 2 ^ p := by
    rw [value_zero, abs_zero]
    exact ⟨rfl, by positivity⟩
  by_cases hd : d = 0
  · rw [ofDecimal, if_pos hd]
    exact hzero
  have hd := Nat.pos_of_ne_zero hd
  have hgreatest' : p ≤ 1023 := hgreatest
  have hlarge := size_le_of_lt hd (h.trans_le (zpow_le_zpow_right₀ one_le_two (by omega)))
  obtain ⟨hnum, hden⟩ := decimal_pos hd k
  have hratio : ((scaled 10 d 1 k).1 : ℚ) / (scaled 10 d 1 k).2 ≤ 2 ^ p + 2 ^ (p - 53) := by
    rw [decimal_ratio]
    exact h.le.trans (le_add_of_nonneg_right (by positivity))
  obtain ⟨m, e, hof, hle⟩ := ofRatio_le hnum hden hratio hleast hgreatest s
  rw [ofDecimal, if_neg hd.ne']
  simp only [if_neg (not_lt.mpr hlarge), hof]
  split
  · exact hzero
  · rw [abs_value]
    exact ⟨rfl, hle⟩

end Binary64

end TableAudit.Number
