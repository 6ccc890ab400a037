import TableAudit.Proofs.Calendar.StandardText
import TableAudit.Proofs.Number.Exact

/-!
# Moments of numbers of seconds

A double's whole seconds and their fraction are doubles themselves, so that only the fraction's
microseconds are rounded, and the moment lies within little more than half a microsecond of the
double. A number of milliseconds is divided first, which is rounded too; the quotients of numbers
below `2 ^ 33 * 1000` come so close that the moment is exact.
-/

namespace TableAudit.Calendar.Moment

open TableAudit.Number (Binary64)
open TableAudit.Number.Binary64

variable {x : Binary64} {n : Int}

/-- The moment of a number of seconds is at most half a microsecond away from it, apart from a
rounding error that is far smaller, and not before its whole seconds. -/
theorem ofEpoch?_near (hx : x.isFinite = true) (h0 : 0 ≤ x.value)
    (hrep : Representable x.value) : ∃ t : Int, ofEpoch? x = ofInstant? t ∧
      ⌊x.value⌋ * second ≤ t ∧ |(t : ℚ) - x.value * second| ≤ 1 / 2 + 2 ^ (-34 : Int) := by
  obtain ⟨hwhole, hpart⟩ := representable_floor h0 hrep
  obtain ⟨hfinite, hvalue⟩ := ofInt_exact hwhole
  obtain ⟨hfraction, hfvalue⟩ := sub_exact hx hfinite (by rwa [hvalue])
  rw [hvalue] at hfvalue
  obtain ⟨hmillion, hmvalue⟩ :=
    ofInt_exact (representable_int (show (second : Int).natAbs < 2 ^ 53 by decide))
  obtain ⟨f, hf⟩ : ∃ f, f = x.value - ⌊x.value⌋ := ⟨_, rfl⟩
  have hlow : 0 ≤ f := hf ▸ sub_nonneg.mpr (Int.floor_le _)
  have hhigh : f < 1 := by linarith [Int.lt_floor_add_one x.value]
  have hsecond : ((second : Int) : ℚ) = 1000000 := by norm_num [second]
  rw [← hf] at hfvalue
  have hbound : |(x.sub (ofInt ⌊x.value⌋)).value * (ofInt second).value| < 2 ^ (20 : Int) := by
    rw [hfvalue, hmvalue, hsecond, abs_of_nonneg (by positivity)]
    norm_num
    linarith
  obtain ⟨hproduct, hnear⟩ := mul_near hfraction hmillion hbound (by decide) (by decide)
  obtain ⟨micros, hmicros, hround⟩ := roundEven?_near hproduct
  rw [hfvalue, hmvalue, hsecond, show (20 - 54 : Int) = -34 by norm_num] at hnear
  have htotal : |(micros : ℚ) - f * 1000000| ≤ 1 / 2 + 2 ^ (-34 : Int) :=
    (abs_sub_le _ _ _).trans (add_le_add hround hnear)
  refine ⟨⌊x.value⌋ * second + micros, ?_, ?_, ?_⟩
  · rw [ofEpoch?, truncate?_of_nonneg h0 hx]
    simp only [hmicros]
  · have hsmall : (2 : ℚ) ^ (-34 : Int) < 1 / 2 := by norm_num
    have hnonneg : ((-1 : Int) : ℚ) < micros := by
      push_cast
      linarith [(abs_le.mp htotal).1]
    have : -1 < micros := by exact_mod_cast hnonneg
    omega
  · have hsplit : ((⌊x.value⌋ * second + micros : Int) : ℚ) - x.value * second =
        micros - f * 1000000 := by
      push_cast
      rw [hf, show (second : ℚ) = 1000000 by norm_num [second]]
      ring
    rwa [hsplit]

/-- The moment of a whole number of seconds is exact. -/
theorem ofEpoch?_of_int (hx : x.isFinite = true) (h0 : 0 ≤ n) (hn : n.natAbs < 2 ^ 53)
    (hvalue : x.value = n) : ofEpoch? x = ofInstant? (n * second) := by
  obtain ⟨t, ht, -, hnear⟩ := ofEpoch?_near hx (hvalue ▸ by exact_mod_cast h0)
    (hvalue ▸ representable_int hn)
  have hsmall : (1 : ℚ) / 2 + 2 ^ (-34 : Int) < 1 := by norm_num
  have hclose : |((t - n * second : Int) : ℚ)| < ((1 : Int) : ℚ) := by
    rw [hvalue] at hnear
    push_cast
    exact hnear.trans_lt hsmall
  rw [← Int.cast_abs, Int.cast_lt, Int.abs_lt_one_iff, sub_eq_zero] at hclose
  rw [ht, hclose]

/-! ### Milliseconds -/

/-- A thousandth of a number of milliseconds is close to its seconds. -/
theorem divNat?_near {k : Int} (h0 : 0 < n) (hlt : (n : ℚ) / 1000 < 2 ^ k)
    (hleast : leastExponent + 53 ≤ k) (hgreatest : k ≤ greatestExponent + 52) :
    ∃ x, (Number.int n).divNat? 1000 = some x ∧ x.isFinite = true ∧ 0 ≤ x.value ∧
      Representable x.value ∧ |x.value - n / 1000| ≤ 2 ^ (k - 54) := by
  obtain ⟨a, rfl⟩ := Int.eq_ofNat_of_zero_le h0.le
  have ha : 0 < a := by omega
  have hlt' : (a : ℚ) / (1000 : Nat) < 2 ^ k := by simpa using hlt
  obtain ⟨m, e, hof, hnear⟩ :=
    ofRatio_near ha (show 0 < 1000 by decide) hlt' hleast hgreatest false
  refine ⟨.finite false m e, ?_, rfl, ?_, ?_, ?_⟩
  · have hsign : decide ((a : Int) < 0) = false := by simp
    simp only [Number.divNat?, hsign, Int.natAbs_natCast, hof, isFinite, if_true]
  · rw [value_finite_nonneg]
    positivity
  · exact representable_finite (ofRatio_spec (k := 0) ha (by decide) hof).2.1
  · rw [value_finite_nonneg]
    simpa using hnear

/-- The moment of a number of milliseconds, if the calendar has it. -/
def ofMillis? (n : Number) : Option Moment :=
  (n.divNat? 1000).bind ofEpoch?

/-- The moment of a number of milliseconds is as close to it as the rounded quotient is, and half
a microsecond. -/
theorem ofMillis?_near {k : Int} (h0 : 0 < n) (hlt : (n : ℚ) / 1000 < 2 ^ k)
    (hleast : leastExponent + 53 ≤ k) (hgreatest : k ≤ greatestExponent + 52) :
    ∃ t : Int, ofMillis? (.int n) = ofInstant? t ∧
      |((t - n * 1000 : Int) : ℚ)| ≤ 2 ^ (k - 54) * 1000000 + (1 / 2 + 2 ^ (-34 : Int)) := by
  obtain ⟨x, hx, hfinite, hnonneg, hrep, hquot⟩ := divNat?_near h0 hlt hleast hgreatest
  obtain ⟨t, ht, -, hnear⟩ := ofEpoch?_near hfinite hnonneg hrep
  refine ⟨t, by rw [ofMillis?, hx, Option.bind_some, ht], ?_⟩
  have hmicros : |x.value * second - n * 1000| ≤ 2 ^ (k - 54) * 1000000 := by
    calc
      |x.value * second - n * 1000| = |x.value - n / 1000| * 1000000 := by
        rw [show (second : ℚ) = 1000000 by norm_num [second],
          show x.value * 1000000 - n * 1000 = (x.value - n / 1000) * 1000000 by ring, abs_mul,
          abs_of_pos (show (0 : ℚ) < 1000000 by norm_num)]
      _ ≤ 2 ^ (k - 54) * 1000000 := by gcongr
  push_cast
  rw [add_comm]
  exact (abs_sub_le _ _ _).trans (add_le_add hnear hmicros)

/-- The moment of whole seconds that are counted in milliseconds is exact. -/
theorem ofMillis?_of_seconds (h0 : 0 < n) (hn : n.natAbs < 2 ^ 53) :
    ofMillis? (.int (n * 1000)) = ofInstant? (n * second) := by
  obtain ⟨a, rfl⟩ := Int.eq_ofNat_of_zero_le h0.le
  have ha : 0 < a := by omega
  have hquot : ((a * 1000 : Nat) : ℚ) / (1000 : Nat) = a * 2 ^ (0 : Int) := by
    rw [zpow_zero, mul_one, Nat.cast_mul, mul_div_cancel_right₀ _ (by norm_num)]
  obtain ⟨m, e, hof, -, hvalue⟩ := ofRatio_exact (show 0 < a * 1000 by omega)
    (show 0 < 1000 by decide) (show a < 2 ^ 53 by omega) (by decide) (by decide) hquot false
  have hsign : decide ((a : Int) * 1000 < 0) = false := by
    rw [decide_eq_false_iff_not]
    omega
  have habs : ((a : Int) * 1000).natAbs = a * 1000 := by omega
  have hdiv : (Number.int (a * 1000)).divNat? 1000 = some (.finite false m e) := by
    simp only [Number.divNat?, hsign, habs, hof, isFinite, if_true]
  rw [ofMillis?, hdiv, Option.bind_some]
  refine ofEpoch?_of_int rfl (by omega) hn ?_
  rw [value_finite_nonneg, hvalue, hquot, zpow_zero, mul_one, Int.cast_natCast]

/-- The number of milliseconds from which on the calendar has no moment. -/
def endMillis : Int := 253402300800000

/-- Up to the end of the calendar a number of milliseconds has a moment, which is hardly away from
it, and at first not at all. -/
theorem ofMillis?_spec (h0 : 0 < n) (hend : n < endMillis) :
    ∃ t : Int, ofMillis? (.int n) = ofInstant? t ∧ |t - n * 1000| < 17 ∧
      (n ≤ 2 ^ 33 * 1000 → t = n * 1000) := by
  obtain hsmall | rfl | hlarge := lt_trichotomy n (2 ^ 33 * 1000)
  · have hlt : (n : ℚ) / 1000 < 2 ^ (33 : Int) := by
      rw [div_lt_iff₀ (by norm_num)]
      exact_mod_cast hsmall
    obtain ⟨t, ht, hnear⟩ := ofMillis?_near h0 hlt (by decide) (by decide)
    have hclose : |((t - n * 1000 : Int) : ℚ)| < ((1 : Int) : ℚ) :=
      hnear.trans_lt (by norm_num)
    rw [← Int.cast_abs, Int.cast_lt, Int.abs_lt_one_iff, sub_eq_zero] at hclose
    exact ⟨t, ht, by rw [hclose, sub_self]; decide, fun _ => hclose⟩
  · exact ⟨2 ^ 33 * second, ofMillis?_of_seconds (by decide) (by decide), by decide, by decide⟩
  · have hlt : (n : ℚ) / 1000 < 2 ^ (38 : Int) := by
      have h : (n : ℚ) < endMillis := by exact_mod_cast hend
      rw [div_lt_iff₀ (by norm_num)]
      exact h.trans (by norm_num [endMillis])
    obtain ⟨t, ht, hnear⟩ := ofMillis?_near h0 hlt (by decide) (by decide)
    have hclose : |((t - n * 1000 : Int) : ℚ)| < ((17 : Int) : ℚ) :=
      hnear.trans_lt (by norm_num)
    rw [← Int.cast_abs, Int.cast_lt] at hclose
    exact ⟨t, ht, hclose, fun hle => absurd hle (not_le.mpr hlarge)⟩

/-- The seconds of milliseconds after the end of the calendar are not rounded to before it. -/
theorem end_le_ofRatio {a m : Nat} {e : Int} {s : Bool} (ha : 253402300800001 ≤ a)
    (hof : ofRatio false a 1000 = .finite s m e) : (253402300800 : ℚ) ≤ m * 2 ^ e := by
  obtain ⟨-, -, hpower⟩ := ofRatio_spec (k := 38) (by omega) (by decide) hof
  obtain hk | hk := lt_or_ge ((a : ℚ) / (1000 : Nat)) (2 ^ (38 : Int))
  · obtain ⟨m', e', hof', hnear⟩ := ofRatio_near (show 0 < a by omega) (show 0 < 1000 by decide)
      hk (by decide) (by decide) false
    obtain ⟨-, rfl, rfl⟩ := by simpa [hof] using hof'
    have hquot : (253402300800001 : ℚ) / 1000 ≤ a / (1000 : Nat) := by
      push_cast
      gcongr
      exact_mod_cast ha
    have hrounding : (2 : ℚ) ^ (38 - 54 : Int) < 1 / 1000 := by norm_num
    linarith [(abs_le.mp hnear).1]
  · exact le_trans (by norm_num) (hpower (by decide) hk)

/-- From the end of the calendar on a number of milliseconds has no moment. -/
theorem ofMillis?_eq_none (hend : endMillis ≤ n) : ofMillis? (.int n) = none := by
  have hlate {t : Int} (ht : 253402300800 * second ≤ t) : ofInstant? t = none := by
    rw [← Option.not_isSome_iff_eq_none]
    intro hsome
    have hin : InYears t := ofLocalMicros?_isSome_iff.mp hsome
    simp only [InYears, second] at hin ht
    omega
  obtain rfl | hlt := hend.eq_or_lt
  · -- the first such number is divided without rounding
    exact (ofMillis?_of_seconds (n := 253402300800) (by decide) (by decide)).trans (hlate le_rfl)
  obtain ⟨a, rfl⟩ := Int.eq_ofNat_of_zero_le (show 0 ≤ n by simp only [endMillis] at hend; omega)
  have ha : 253402300800001 ≤ a := by simp only [endMillis] at hlt; omega
  have hsign : decide ((a : Int) < 0) = false := by simp
  rw [ofMillis?, Option.bind_eq_none_iff]
  intro x hx
  simp only [Number.divNat?, hsign, Int.natAbs_natCast, Option.ite_none_right_eq_some,
    Option.some.injEq] at hx
  obtain ⟨hfinite, rfl⟩ := hx
  obtain ⟨s, m, e, hof⟩ : ∃ s m e, ofRatio false a 1000 = .finite s m e := by
    cases hof : ofRatio false a 1000 with
    | finite s m e => exact ⟨s, m, e, rfl⟩
    | _ => simp [hof, isFinite] at hfinite
  obtain ⟨rfl, hnormal, -⟩ := ofRatio_spec (k := 38) (by omega) (by decide) hof
  rw [hof]
  have hfloor : 253402300800 ≤ ⌊(finite false m e).value⌋ := by
    rw [Int.le_floor, value_finite_nonneg]
    exact_mod_cast end_le_ofRatio ha hof
  obtain ⟨t, ht, hwhole, -⟩ := ofEpoch?_near (x := .finite false m e) rfl
    (by rw [value_finite_nonneg]; positivity) (representable_finite hnormal)
  rw [ht]
  refine hlate (le_trans ?_ hwhole)
  gcongr

end TableAudit.Calendar.Moment
