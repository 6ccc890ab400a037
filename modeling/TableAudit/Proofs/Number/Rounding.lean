import Mathlib.Algebra.Order.Field.Power
import Mathlib.Data.Rat.Floor
import Mathlib.Tactic.FieldSimp
import Mathlib.Tactic.Linarith
import Mathlib.Tactic.NormNum
import Mathlib.Tactic.Positivity
import Mathlib.Tactic.Ring
import TableAudit.Number.Basic

/-!
# Rounding quotients to doubles

A finite double stands for an exact number, `± m * 2 ^ e`. Around it lies the interval of the
numbers that are rounded to it; it reaches halfway to both neighbours, with its ends if the
mantissa is even. The quotient of two natural numbers becomes the double in the interval of which
it lies; so a quotient that is a double is not changed, and any other is moved by at most half a
unit of the last place.
-/

namespace TableAudit.Number

variable {num den q : Nat} {k : Int}

/-! ### Quotients -/

theorem scaled_pos {base : Nat} {e : Int} (hb : 0 < base) (h : 0 < den) :
    0 < (scaled base num den e).2 := by
  simp only [scaled]
  split
  · exact h
  · exact Nat.mul_pos h (Nat.pow_pos hb)

theorem scaled_ratio {base : Nat} (hb : 0 < base) (num den : Nat) (e : Int) :
    ((scaled base num den e).1 : ℚ) / (scaled base num den e).2 =
      num / den * (base : ℚ) ^ e := by
  simp only [scaled, Nat.pow_eq]
  split
  next he =>
    obtain ⟨n, rfl⟩ := Int.eq_ofNat_of_zero_le he
    push_cast
    rw [Int.toNat_natCast, zpow_natCast]
    ring
  next he =>
    obtain ⟨n, hn⟩ := Int.eq_ofNat_of_zero_le (show 0 ≤ -e by omega)
    have hbase : (base : ℚ) ≠ 0 := by positivity
    obtain rfl : e = -n := by omega
    push_cast
    rw [neg_neg, Int.toNat_natCast, zpow_neg, zpow_natCast]
    field_simp

/-- A quotient lies between two powers of two that the sizes of its terms tell. -/
theorem quotient_bracket (hn : 0 < num) (hd : 0 < den) :
    (2 : ℚ) ^ ((num.log2 : Int) - den.log2 - 1) ≤ num / den ∧
      (num : ℚ) / den < 2 ^ ((num.log2 : Int) - den.log2 + 1) := by
  have hden : (0 : ℚ) < den := by exact_mod_cast hd
  constructor
  · rw [le_div_iff₀ hden]
    calc
      (2 : ℚ) ^ ((num.log2 : Int) - den.log2 - 1) * den
          ≤ 2 ^ ((num.log2 : Int) - den.log2 - 1) * 2 ^ ((den.log2 : Int) + 1) := by
        gcongr
        exact_mod_cast (Nat.lt_log2_self (n := den)).le
      _ = 2 ^ (num.log2 : Int) := by
        rw [← zpow_add₀ two_ne_zero]
        congr 1
        ring
      _ ≤ num := by
        rw [zpow_natCast]
        exact_mod_cast Nat.log2_self_le hn.ne'
  · rw [div_lt_iff₀ hden]
    calc
      (num : ℚ) < 2 ^ ((num.log2 : Int) + 1) := by
        exact_mod_cast Nat.lt_log2_self (n := num)
      _ = 2 ^ ((num.log2 : Int) - den.log2 + 1) * 2 ^ (den.log2 : Int) := by
        rw [← zpow_add₀ two_ne_zero]
        congr 1
        ring
      _ ≤ 2 ^ ((num.log2 : Int) - den.log2 + 1) * den := by
        gcongr
        rw [zpow_natCast]
        exact_mod_cast Nat.log2_self_le hd.ne'

/-- The comparison of the scaled terms tells whether a power of two is in the quotient. -/
theorem scaled_le_iff (hd : 0 < den) (k : Int) :
    (scaled 2 num den (-k)).2 ≤ (scaled 2 num den (-k)).1 ↔ (2 : ℚ) ^ k ≤ num / den := by
  have hpos : (0 : ℚ) < (scaled 2 num den (-k)).2 := by
    exact_mod_cast scaled_pos (by decide) hd
  have hratio := scaled_ratio (show 0 < 2 by decide) num den (-k)
  rw [← Nat.cast_le (α := ℚ), ← one_le_div₀ hpos, hratio, Nat.cast_ofNat, zpow_neg,
    ← div_eq_mul_inv, one_le_div₀ (by positivity)]

/-- The binary magnitude of a quotient is the exponent of the power of two below it. -/
theorem binaryMagnitude_spec (hn : 0 < num) (hd : 0 < den) :
    (2 : ℚ) ^ binaryMagnitude num den ≤ num / den ∧
      (num : ℚ) / den < 2 ^ (binaryMagnitude num den + 1) := by
  obtain ⟨hlow, hhigh⟩ := quotient_bracket hn hd
  simp only [binaryMagnitude]
  split
  next h => exact ⟨(scaled_le_iff hd _).mp h, hhigh⟩
  next h =>
    refine ⟨hlow, ?_⟩
    rw [sub_add_cancel, ← not_le]
    exact fun h' => h ((scaled_le_iff hd _).mpr h')

theorem binaryMagnitude_lt_iff (hn : 0 < num) (hd : 0 < den) :
    binaryMagnitude num den < k ↔ (num : ℚ) / den < 2 ^ k := by
  obtain ⟨hlow, hhigh⟩ := binaryMagnitude_spec hn hd
  constructor
  · intro h
    exact hhigh.trans_le (zpow_le_zpow_right₀ one_le_two h)
  · intro h
    exact (zpow_lt_zpow_iff_right₀ one_lt_two).mp (hlow.trans_lt h)

theorem le_binaryMagnitude_iff (hn : 0 < num) (hd : 0 < den) :
    k ≤ binaryMagnitude num den ↔ (2 : ℚ) ^ k ≤ num / den := by
  rw [← not_lt, binaryMagnitude_lt_iff hn hd, not_lt]

/-- A quotient is its integer part and a fraction. -/
theorem quotient_split (num : Nat) (hd : 0 < den) :
    (num : ℚ) / den = (num / den : Nat) + (num % den : Nat) / den := by
  have hden : (0 : ℚ) < den := by exact_mod_cast hd
  have hsplit : (num : ℚ) = den * (num / den : Nat) + (num % den : Nat) := by
    exact_mod_cast (Nat.div_add_mod num den).symm
  rw [eq_comm, ← sub_eq_zero]
  field_simp
  linarith

/-- The rounding is decided by how the fraction compares with a half. -/
theorem divEven_of_fraction (hd : 0 < den) {f : ℚ} (hf : f = (num % den : Nat) / den) :
    divEven num den = if f < 1 / 2 then num / den else if 1 / 2 < f then num / den + 1
      else if num / den % 2 = 0 then num / den else num / den + 1 := by
  have hden : (0 : ℚ) < den := by exact_mod_cast hd
  have hbelow : 2 * (num % den) < den ↔ f < 1 / 2 := by
    rw [hf, div_lt_iff₀ hden, ← Nat.cast_lt (α := ℚ)]
    push_cast
    constructor <;> intro h <;> linarith
  have habove : den < 2 * (num % den) ↔ 1 / 2 < f := by
    rw [hf, lt_div_iff₀ hden, ← Nat.cast_lt (α := ℚ)]
    push_cast
    constructor <;> intro h <;> linarith
  simp only [divEven, hbelow, habove]

/-- Only the two neighbours of a number are near enough to be its rounding. -/
theorem near_neighbour {n : Nat} {f : ℚ} (hf0 : 0 ≤ f) (hf1 : f < 1)
    (h : |(n : ℚ) + f - q| ≤ 1 / 2) : q = n ∧ f ≤ 1 / 2 ∨ q = n + 1 ∧ 1 / 2 ≤ f := by
  rw [abs_le] at h
  have hlow : n ≤ q := by
    have hlt : (n : ℚ) < q + 1 := by linarith
    exact Nat.lt_succ_iff.mp (by exact_mod_cast hlt)
  have hhigh : q < n + 2 := by
    have hlt : (q : ℚ) < n + 2 := by linarith
    exact_mod_cast hlt
  obtain rfl | rfl : q = n ∨ q = n + 1 := by omega
  · exact Or.inl ⟨rfl, by linarith⟩
  · push_cast at h
    exact Or.inr ⟨rfl, by linarith⟩

/-- A quotient is rounded to the nearest integer, and to an even one if two are equally near. -/
theorem divEven_eq_iff (hd : 0 < den) : divEven num den = q ↔
    |(num : ℚ) / den - q| < 1 / 2 ∨ |(num : ℚ) / den - q| = 1 / 2 ∧ q % 2 = 0 := by
  have hden : (0 : ℚ) < den := by exact_mod_cast hd
  obtain ⟨f, hf⟩ : ∃ f : ℚ, f = (num % den : Nat) / den := ⟨_, rfl⟩
  have hf0 : 0 ≤ f := by rw [hf]; positivity
  have hf1 : f < 1 := by
    rw [hf, div_lt_one hden]
    exact_mod_cast Nat.mod_lt num hd
  have hstay : |((num / den : Nat) : ℚ) + f - (num / den : Nat)| = f := by
    rw [add_sub_cancel_left, abs_of_nonneg hf0]
  have hgo : |((num / den : Nat) : ℚ) + f - (num / den + 1 : Nat)| = 1 - f := by
    push_cast
    rw [show ((num / den : Nat) : ℚ) + f - ((num / den : Nat) + 1) = -(1 - f) by ring, abs_neg,
      abs_of_pos (by linarith)]
  rw [quotient_split num hd, ← hf, divEven_of_fraction hd hf]
  constructor
  · rintro rfl
    split
    next h => exact Or.inl (by rw [hstay]; exact h)
    next h =>
      split
      next h' => exact Or.inl (by rw [hgo]; linarith)
      next h' =>
        have hhalf : f = 1 / 2 := by linarith
        split
        next he => exact Or.inr ⟨by rw [hstay]; exact hhalf, he⟩
        next ho => exact Or.inr ⟨by rw [hgo]; linarith, by omega⟩
  · intro h
    obtain ⟨rfl, hle⟩ | ⟨rfl, hge⟩ :=
      near_neighbour hf0 hf1 (h.elim le_of_lt fun h => h.1.le)
    · rw [hstay] at h
      obtain h | ⟨h, he⟩ := h
      · rw [if_pos h]
      · rw [if_neg h.not_lt, if_neg h.not_gt, if_pos he]
    · rw [hgo] at h
      rw [if_neg (not_lt.mpr hge)]
      obtain h | ⟨h, he⟩ := h
      · rw [if_pos (by linarith)]
      · rw [if_neg (by linarith), if_neg (by omega)]

theorem divEven_near (num : Nat) (hd : 0 < den) :
    |(num : ℚ) / den - divEven num den| ≤ 1 / 2 :=
  ((divEven_eq_iff hd).mp rfl).elim le_of_lt fun h => h.1.le

/-! ### Doubles -/

namespace Binary64

variable {m : Nat} {e : Int} {s t : Bool} {x : ℚ}

/-- The exact number that a finite double stands for. -/
def value : Binary64 → ℚ
  | .finite s m e => signedMantissa s m * 2 ^ e
  | _ => 0

/-- Mantissa and exponent as every operation leaves them. -/
structure IsNormal (m : Nat) (e : Int) : Prop where
  lt : m < 2 ^ 53
  least : leastExponent ≤ e
  greatest : e ≤ greatestExponent
  full : 2 ^ 52 ≤ m ∨ e = leastExponent

/-- The gap to the next smaller double is half the one to the next larger, in units of the last
place: below a power of two doubles lie closer together. -/
def gapBelow (m : Nat) (e : Int) : ℚ :=
  if m = 2 ^ 52 ∧ leastExponent < e then 1 / 4 else 1 / 2

/-- The numbers that are rounded to `m * 2 ^ e`: those up to halfway to the neighbours, and the
midpoints themselves if the mantissa is even. -/
def RoundsTo (x : ℚ) (m : Nat) (e : Int) : Prop :=
  if m % 2 = 0 then (m - gapBelow m e) * 2 ^ e ≤ x ∧ x ≤ (m + 1 / 2) * 2 ^ e
  else (m - gapBelow m e) * 2 ^ e < x ∧ x < (m + 1 / 2) * 2 ^ e

theorem gapBelow_pos (m : Nat) (e : Int) : 0 < gapBelow m e := by
  unfold gapBelow
  split <;> norm_num

theorem gapBelow_le (m : Nat) (e : Int) : gapBelow m e ≤ 1 / 2 := by
  unfold gapBelow
  split <;> norm_num

theorem RoundsTo.bounds (h : RoundsTo x m e) :
    (m - gapBelow m e) * 2 ^ e ≤ x ∧ x ≤ (m + 1 / 2) * 2 ^ e := by
  unfold RoundsTo at h
  split at h
  · exact h
  · exact ⟨h.1.le, h.2.le⟩

theorem roundsTo_self (m : Nat) (e : Int) : RoundsTo (m * 2 ^ e) m e := by
  have hpos : (0 : ℚ) < 2 ^ e := by positivity
  have hgap := gapBelow_pos m e
  unfold RoundsTo
  split
  · constructor <;> gcongr <;> linarith
  · constructor <;> gcongr <;> linarith

/-- In units of the last place the number is nearest to the mantissa. -/
theorem RoundsTo.nearest (h : RoundsTo x m e) :
    |x * 2 ^ (-e) - m| < 1 / 2 ∨ |x * 2 ^ (-e) - m| = 1 / 2 ∧ m % 2 = 0 := by
  have hpos : (0 : ℚ) < 2 ^ e := by positivity
  obtain ⟨y, rfl⟩ : ∃ y, x = y * 2 ^ e := ⟨x * 2 ^ (-e), by
    rw [mul_assoc, ← zpow_add₀ two_ne_zero, neg_add_cancel, zpow_zero, mul_one]⟩
  rw [mul_assoc, ← zpow_add₀ two_ne_zero, add_neg_cancel, zpow_zero, mul_one]
  have hgap := gapBelow_le m e
  unfold RoundsTo at h
  split at h
  next he =>
    rw [mul_le_mul_iff_left₀ hpos, mul_le_mul_iff_left₀ hpos] at h
    have hle : |y - m| ≤ 1 / 2 := abs_le.mpr ⟨by linarith, by linarith⟩
    exact hle.lt_or_eq.imp_right fun h => ⟨h, he⟩
  next =>
    rw [mul_lt_mul_iff_left₀ hpos, mul_lt_mul_iff_left₀ hpos] at h
    exact Or.inl (abs_lt.mpr ⟨by linarith, by linarith⟩)

/-- The unit of the last place to which a quotient is rounded. -/
def unitOf (num den : Nat) : Int :=
  max (binaryMagnitude num den - 52) leastExponent

/-- The mantissa to which a quotient is rounded. -/
def mantissaOf (num den : Nat) : Nat :=
  divEven (scaled 2 num den (-unitOf num den)).1 (scaled 2 num den (-unitOf num den)).2

theorem ofRatio_eq (hn : 0 < num) (s : Bool) (den : Nat) : ofRatio s num den =
    let r := if mantissaOf num den = 2 ^ 53 then (2 ^ 52, unitOf num den + 1)
      else (mantissaOf num den, unitOf num den)
    if greatestExponent < r.2 then .infinity s else .finite s r.1 r.2 := by
  rw [ofRatio, if_neg hn.ne']
  rfl

theorem scaled_unit (num den : Nat) (u : Int) :
    ((scaled 2 num den (-u)).1 : ℚ) / (scaled 2 num den (-u)).2 = num / den * 2 ^ (-u) := by
  exact_mod_cast scaled_ratio (by decide) num den (-u)

/-- The mantissa is nearest to the quotient in units of the last place. -/
theorem mantissaOf_eq_iff (hd : 0 < den) : mantissaOf num den = m ↔
    |(num : ℚ) / den * 2 ^ (-unitOf num den) - m| < 1 / 2 ∨
      |(num : ℚ) / den * 2 ^ (-unitOf num den) - m| = 1 / 2 ∧ m % 2 = 0 := by
  have hden : 0 < (scaled 2 num den (-unitOf num den)).2 := scaled_pos (by decide) hd
  rw [mantissaOf, divEven_eq_iff hden, scaled_unit]

theorem mantissaOf_near (num : Nat) (hd : 0 < den) :
    |(num : ℚ) / den * 2 ^ (-unitOf num den) - mantissaOf num den| ≤ 1 / 2 :=
  ((mantissaOf_eq_iff hd).mp rfl).elim le_of_lt fun h => h.1.le

/-- A quotient whose last place is that of a double is rounded to it. -/
theorem ofRatio_of_unit (hn : 0 < num) (hd : 0 < den) (hnormal : IsNormal m e)
    (h : RoundsTo (num / den) m e) (hunit : unitOf num den = e) (s : Bool) :
    ofRatio s num den = .finite s m e := by
  have hmant : mantissaOf num den = m := by
    rw [mantissaOf_eq_iff hd, hunit]
    exact h.nearest
  have hm : m ≠ 2 ^ 53 := hnormal.lt.ne
  rw [ofRatio_eq hn]
  simp only [hunit, hmant, hm, if_false]
  exact if_neg (not_lt.mpr hnormal.greatest)

/-- A quotient just below a power of two is rounded up to it. -/
theorem ofRatio_of_power (hn : 0 < num) (hd : 0 < den) (hgreatest : e ≤ greatestExponent)
    (hnear : (2 ^ 52 - 1 / 4) * 2 ^ e ≤ (num : ℚ) / den)
    (hbelow : (num : ℚ) / den < 2 ^ 52 * 2 ^ e) (hunit : unitOf num den = e - 1) (s : Bool) :
    ofRatio s num den = .finite s (2 ^ 52) e := by
  have hdouble : (2 : ℚ) ^ (-(e - 1)) * 2 ^ e = 2 := by
    rw [← zpow_add₀ two_ne_zero]
    norm_num
  have hlow : (2 ^ 53 - 1 / 2 : ℚ) ≤ num / den * 2 ^ (-(e - 1)) := by
    calc
      (2 ^ 53 - 1 / 2 : ℚ) = (2 ^ 52 - 1 / 4) * 2 ^ e * 2 ^ (-(e - 1)) := by
        rw [mul_assoc, mul_comm (2 ^ e : ℚ), hdouble]
        ring
      _ ≤ num / den * 2 ^ (-(e - 1)) := by gcongr
  have hhigh : (num : ℚ) / den * 2 ^ (-(e - 1)) < 2 ^ 53 := by
    calc
      (num : ℚ) / den * 2 ^ (-(e - 1)) < 2 ^ 52 * 2 ^ e * 2 ^ (-(e - 1)) := by gcongr
      _ = 2 ^ 53 := by
        rw [mul_assoc, mul_comm (2 ^ e : ℚ), hdouble]
        ring
  have hmant : mantissaOf num den = 2 ^ 53 := by
    have hle : |(num : ℚ) / den * 2 ^ (-(e - 1)) - (2 ^ 53 : Nat)| ≤ 1 / 2 := by
      push_cast
      exact abs_le.mpr ⟨by linarith, by linarith⟩
    rw [mantissaOf_eq_iff hd, hunit]
    exact hle.lt_or_eq.imp_right fun h => ⟨h, by norm_num⟩
  rw [ofRatio_eq hn]
  simp only [hunit, hmant, if_true, sub_add_cancel]
  exact if_neg (not_lt.mpr hgreatest)

/-- A quotient that is rounded to a double is less than a power of two beyond its mantissas. -/
theorem RoundsTo.binaryMagnitude_lt (h : RoundsTo (num / den) m e) (hn : 0 < num) (hd : 0 < den)
    (hm : m < 2 ^ 53) : binaryMagnitude num den < e + 53 := by
  have hlt : (m : ℚ) + 1 / 2 < 2 ^ (53 : Int) := by
    have hlt : (m : ℚ) + 1 ≤ 2 ^ 53 := by exact_mod_cast hm
    norm_num at hlt ⊢
    linarith
  rw [binaryMagnitude_lt_iff hn hd, zpow_add₀ two_ne_zero, mul_comm]
  calc
    (num : ℚ) / den ≤ (m + 1 / 2) * 2 ^ e := h.bounds.2
    _ < 2 ^ (53 : Int) * 2 ^ e := by gcongr

/-- What lies below the full mantissas and is rounded to one of them is rounded to the first. -/
theorem RoundsTo.eq_power (h : RoundsTo x m e) (hx : x < 2 ^ 52 * 2 ^ e) (hm : 2 ^ 52 ≤ m) :
    m = 2 ^ 52 := by
  have hpos : (0 : ℚ) < 2 ^ e := by positivity
  have hgap := gapBelow_le m e
  have hlt : (m - gapBelow m e : ℚ) < 2 ^ 52 :=
    (mul_lt_mul_iff_left₀ hpos).mp (h.bounds.1.trans_lt hx)
  have hlt' : (m : ℚ) < (2 ^ 52 + 1 : Nat) := by
    push_cast
    linarith
  exact le_antisymm (Nat.lt_succ_iff.mp (Nat.cast_lt.mp hlt')) hm

/-- A quotient is rounded to the double to which it is nearest. -/
theorem ofRatio_of_roundsTo (hn : 0 < num) (hd : 0 < den) (hnormal : IsNormal m e)
    (h : RoundsTo (num / den) m e) (s : Bool) : ofRatio s num den = .finite s m e := by
  have hmag := h.binaryMagnitude_lt hn hd hnormal.lt
  by_cases hfull : e = leastExponent ∨ e + 52 ≤ binaryMagnitude num den
  · -- the unit of the last place is that of the double
    refine ofRatio_of_unit hn hd hnormal h ?_ s
    have := hnormal.least
    unfold unitOf
    omega
  · -- the quotient lies below the power of two that it is rounded to
    obtain ⟨hne, hsmall⟩ := not_or.mp hfull
    have hleast : leastExponent < e := lt_of_le_of_ne hnormal.least (Ne.symm hne)
    have hbelow : (num : ℚ) / den < 2 ^ 52 * 2 ^ e := by
      rw [le_binaryMagnitude_iff hn hd, not_le, zpow_add₀ two_ne_zero, mul_comm,
        zpow_ofNat] at hsmall
      exact hsmall
    obtain rfl := h.eq_power hbelow (hnormal.full.resolve_right hne)
    have hnear : (2 ^ 52 - 1 / 4) * 2 ^ e ≤ (num : ℚ) / den := by
      have hlow := h.bounds.1
      rw [gapBelow, if_pos ⟨rfl, hleast⟩] at hlow
      exact_mod_cast hlow
    have hlarge : e + 51 ≤ binaryMagnitude num den := by
      rw [le_binaryMagnitude_iff hn hd, zpow_add₀ two_ne_zero, mul_comm, zpow_ofNat]
      refine le_trans ?_ hnear
      gcongr
      norm_num
    refine ofRatio_of_power hn hd hnormal.greatest hnear hbelow ?_ s
    unfold unitOf
    omega

/-- An exact double with a smaller mantissa has a full one too. -/
theorem exists_isNormal (hm : 0 < m) (hlt : m < 2 ^ 53) (hleast : leastExponent ≤ e)
    (hgreatest : e ≤ greatestExponent) :
    ∃ m' e', IsNormal m' e' ∧ 0 < m' ∧ (m' : ℚ) * 2 ^ e' = m * 2 ^ e := by
  obtain ⟨shift, hshift, hroom, hall⟩ : ∃ shift : Nat, shift + m.log2 ≤ 52 ∧
      shift ≤ e - leastExponent ∧ (shift + m.log2 = 52 ∨ shift = e - leastExponent) := by
    have hlog : m.log2 < 53 := (Nat.log2_lt hm.ne').mpr hlt
    obtain h | h := le_total (52 - m.log2 : Nat) (e - leastExponent).toNat
    · exact ⟨52 - m.log2, by omega, by omega, by omega⟩
    · exact ⟨(e - leastExponent).toNat, by omega, by omega, by omega⟩
  refine ⟨m * 2 ^ shift, e - shift, ⟨?_, by omega, by omega, ?_⟩, by positivity, ?_⟩
  · calc
      m * 2 ^ shift < 2 ^ (m.log2 + 1) * 2 ^ shift := by
        gcongr
        exact Nat.lt_log2_self
      _ = 2 ^ (m.log2 + 1 + shift) := (pow_add ..).symm
      _ ≤ 2 ^ 53 := Nat.pow_le_pow_right (by decide) (by omega)
  · obtain h | h := hall
    · left
      calc
        2 ^ 52 = 2 ^ m.log2 * 2 ^ shift := by rw [← pow_add, add_comm, h]
        _ ≤ m * 2 ^ shift := by
          gcongr
          exact Nat.log2_self_le hm.ne'
    · exact Or.inr (by omega)
  · push_cast
    rw [zpow_sub₀ two_ne_zero, zpow_natCast]
    field_simp

/-- A quotient that a double can hold is not rounded. -/
theorem ofRatio_exact (hn : 0 < num) (hd : 0 < den) (hlt : m < 2 ^ 53)
    (hleast : leastExponent ≤ e) (hgreatest : e ≤ greatestExponent)
    (h : (num : ℚ) / den = m * 2 ^ e) (s : Bool) :
    ∃ m' e', ofRatio s num den = .finite s m' e' ∧ IsNormal m' e' ∧
      (m' : ℚ) * 2 ^ e' = num / den := by
  have hm : 0 < m := by
    rw [Nat.pos_iff_ne_zero]
    rintro rfl
    rw [Nat.cast_zero, zero_mul, div_eq_zero_iff] at h
    exact absurd h (by simp [hn.ne', hd.ne'])
  obtain ⟨m', e', hnormal, -, heq⟩ := exists_isNormal hm hlt hleast hgreatest
  refine ⟨m', e', ofRatio_of_roundsTo hn hd hnormal ?_ s, hnormal, heq.trans h.symm⟩
  rw [h, ← heq]
  exact roundsTo_self m' e'

/-- A quotient is at most half a unit of the last place away from what it is rounded to. -/
theorem ofRatio_near (hn : 0 < num) (hd : 0 < den) (hx : (num : ℚ) / den < 2 ^ k)
    (hleast : leastExponent + 53 ≤ k) (hgreatest : k ≤ greatestExponent + 52) (s : Bool) :
    ∃ m e, ofRatio s num den = .finite s m e ∧ |(m : ℚ) * 2 ^ e - num / den| ≤ 2 ^ (k - 54) := by
  have hmag := (binaryMagnitude_lt_iff hn hd).mpr hx
  have hunit : unitOf num den ≤ k - 53 := by
    unfold unitOf
    omega
  have hhalf := mantissaOf_near num hd
  rw [abs_sub_comm] at hhalf
  rw [ofRatio_eq hn]
  generalize unitOf num den = u at hunit hhalf
  generalize mantissaOf num den = m at hhalf
  have hpos : (0 : ℚ) < 2 ^ u := by positivity
  have hnear : |(m : ℚ) * 2 ^ u - num / den| ≤ 2 ^ (k - 54) := by
    calc
      |(m : ℚ) * 2 ^ u - num / den| = |(m : ℚ) - num / den * 2 ^ (-u)| * 2 ^ u := by
        rw [← abs_of_pos hpos, ← abs_mul, abs_of_pos hpos, sub_mul, mul_assoc (num / den : ℚ),
          ← zpow_add₀ two_ne_zero, neg_add_cancel, zpow_zero, mul_one]
      _ ≤ 1 / 2 * 2 ^ u := by gcongr
      _ = 2 ^ (u - 1) := by
        rw [zpow_sub₀ two_ne_zero, zpow_one]
        ring
      _ ≤ 2 ^ (k - 54) := zpow_le_zpow_right₀ one_le_two (by omega)
  split
  next h53 =>
    refine ⟨2 ^ 52, u + 1, if_neg (by simp only; omega), ?_⟩
    rw [h53] at hnear
    rw [zpow_add_one₀ two_ne_zero]
    push_cast at hnear ⊢
    convert hnear using 3
    ring
  next => exact ⟨m, u, if_neg (by simp only; omega), hnear⟩

/-- The mantissa has at most one bit too many. -/
theorem mantissaOf_le (hn : 0 < num) (hd : 0 < den) : mantissaOf num den ≤ 2 ^ 53 := by
  have hhigh := (binaryMagnitude_spec hn hd).2
  have hunit : binaryMagnitude num den - 52 ≤ unitOf num den := le_max_left ..
  have hnear := (abs_le.mp (mantissaOf_near num hd)).1
  generalize unitOf num den = u at hunit hnear
  have hlt : (num : ℚ) / den * 2 ^ (-u) < 2 ^ 53 := by
    calc
      (num : ℚ) / den * 2 ^ (-u) < 2 ^ (binaryMagnitude num den + 1) * 2 ^ (-u) := by gcongr
      _ = 2 ^ (binaryMagnitude num den + 1 - u) := by
        rw [← zpow_add₀ two_ne_zero, sub_eq_add_neg]
      _ ≤ 2 ^ (53 : Int) := zpow_le_zpow_right₀ one_le_two (by omega)
      _ = 2 ^ 53 := by norm_num
  have hle : (mantissaOf num den : ℚ) < 2 ^ 53 + 1 := by linarith
  exact Nat.lt_succ_iff.mp (by exact_mod_cast hle)

/-- What is less than half a unit of the last place above a power of two is not rounded above it. -/
theorem ofRatio_le (hn : 0 < num) (hd : 0 < den) (hx : (num : ℚ) / den ≤ 2 ^ k + 2 ^ (k - 53))
    (hleast : leastExponent + 53 ≤ k) (hgreatest : k ≤ greatestExponent + 52) (s : Bool) :
    ∃ m e, ofRatio s num den = .finite s m e ∧ (m : ℚ) * 2 ^ e ≤ 2 ^ k := by
  by_cases hbelow : (num : ℚ) / den < 2 ^ k
  · have hmag := (binaryMagnitude_lt_iff hn hd).mpr hbelow
    have hunit : unitOf num den ≤ k - 53 := by
      unfold unitOf
      omega
    have hle : (mantissaOf num den : ℚ) ≤ 2 ^ 53 := by exact_mod_cast mantissaOf_le hn hd
    rw [ofRatio_eq hn]
    generalize unitOf num den = u at hunit
    generalize mantissaOf num den = m at hle
    have hbound : (2 : ℚ) ^ 53 * 2 ^ u ≤ 2 ^ k := by
      rw [← zpow_ofNat, ← zpow_add₀ two_ne_zero]
      exact zpow_le_zpow_right₀ one_le_two (by omega)
    split
    next =>
      refine ⟨2 ^ 52, u + 1, if_neg (by simp only; omega), le_of_eq_of_le ?_ hbound⟩
      rw [zpow_add_one₀ two_ne_zero]
      push_cast
      ring
    next => exact ⟨m, u, if_neg (by simp only; omega), le_trans (by gcongr) hbound⟩
  · -- the power of two itself is nearest
    have hpower : (2 : ℚ) ^ k = 2 ^ 52 * 2 ^ (k - 52) := by
      rw [← zpow_ofNat, ← zpow_add₀ two_ne_zero]
      congr 1
      ring
    have hhalf : (2 : ℚ) ^ (k - 53) = 1 / 2 * 2 ^ (k - 52) := by
      rw [show k - 53 = k - 52 - 1 by ring, zpow_sub_one₀ two_ne_zero]
      ring
    have hpos : (0 : ℚ) < 2 ^ (k - 52) := by positivity
    have hgap := gapBelow_pos (2 ^ 52) (k - 52)
    rw [not_lt, hpower] at hbelow
    rw [hpower, hhalf, ← add_mul] at hx
    refine ⟨2 ^ 52, k - 52, ofRatio_of_roundsTo hn hd ⟨by norm_num, by omega, by omega,
      Or.inl le_rfl⟩ ?_ s, by rw [hpower]; norm_num⟩
    rw [RoundsTo, if_pos (by norm_num)]
    rw [Nat.cast_pow, Nat.cast_ofNat]
    exact ⟨le_trans (by gcongr; linarith) hbelow, hx⟩

/-- Above the least exponent the mantissa is full. -/
theorem le_mantissaOf (hn : 0 < num) (hd : 0 < den)
    (h : binaryMagnitude num den - 52 = unitOf num den) : 2 ^ 52 ≤ mantissaOf num den := by
  have hlow := (binaryMagnitude_spec hn hd).1
  have hnear := (abs_le.mp (mantissaOf_near num hd)).2
  generalize unitOf num den = u at h hnear
  have hge : (2 : ℚ) ^ 52 ≤ num / den * 2 ^ (-u) := by
    calc
      (2 : ℚ) ^ 52 = 2 ^ (binaryMagnitude num den - u) := by
        rw [show binaryMagnitude num den - u = (52 : Int) by omega]
        norm_num
      _ = 2 ^ binaryMagnitude num den * 2 ^ (-u) := by
        rw [← zpow_add₀ two_ne_zero, sub_eq_add_neg]
      _ ≤ num / den * 2 ^ (-u) := by gcongr
  have hle : (2 : ℚ) ^ 52 < mantissaOf num den + 1 := by linarith
  exact Nat.lt_succ_iff.mp (by exact_mod_cast hle)

/-- A quotient is rounded to a mantissa and exponent that an operation leaves, and not below a
power of two. -/
theorem ofRatio_spec (hn : 0 < num) (hd : 0 < den) (h : ofRatio s num den = .finite t m e) :
    t = s ∧ IsNormal m e ∧
      (leastExponent + 52 ≤ k → (2 : ℚ) ^ k ≤ num / den → (2 : ℚ) ^ k ≤ m * 2 ^ e) := by
  have hunit : unitOf num den = max (binaryMagnitude num den - 52) leastExponent := rfl
  have hle := mantissaOf_le hn hd
  have hfull := le_mantissaOf hn hd
  rw [ofRatio_eq hn] at h
  generalize unitOf num den = u at h hunit hfull
  generalize mantissaOf num den = q at h hle hfull
  dsimp only at h
  -- a mantissa with a bit too many becomes the next power of two
  split at h
  next h53 =>
    split at h
    next => cases h
    next hgreat =>
      cases h
      refine ⟨rfl, ⟨by norm_num, by omega, by omega, Or.inl le_rfl⟩, fun hk hx => ?_⟩
      have hkb := (le_binaryMagnitude_iff hn hd).mpr hx
      rw [Nat.cast_pow, Nat.cast_ofNat, ← zpow_natCast, ← zpow_add₀ two_ne_zero]
      exact zpow_le_zpow_right₀ one_le_two (by omega)
  next h53 =>
    split at h
    next => cases h
    next hgreat =>
      cases h
      refine ⟨rfl, ⟨by omega, by omega, by omega, ?_⟩, fun hk hx => ?_⟩
      · by_cases hbu : binaryMagnitude num den - 52 = u
        · exact Or.inl (hfull hbu)
        · exact Or.inr (by omega)
      · have hkb := (le_binaryMagnitude_iff hn hd).mpr hx
        have hmant : (2 : ℚ) ^ (52 : Int) ≤ q := by exact_mod_cast hfull (by omega)
        calc
          (2 : ℚ) ^ k ≤ 2 ^ (52 + u) := zpow_le_zpow_right₀ one_le_two (by omega)
          _ = 2 ^ (52 : Int) * 2 ^ u := zpow_add₀ two_ne_zero ..
          _ ≤ q * 2 ^ u := by gcongr

end Binary64

end TableAudit.Number
