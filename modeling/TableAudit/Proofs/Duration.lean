import TableAudit.Duration
import TableAudit.Proofs.Number.Digits
import TableAudit.Proofs.Text.Cutting

/-!
# Durations in milliseconds

A duration that is only a number counts milliseconds. An integer of fewer than 16 digits is read
without rounding, so its text lasts exactly as long as it says.
-/

namespace TableAudit.Duration

open TableAudit.Number (Binary64 Form)
open TableAudit.Text (isBlank isDecimalDigit)

variable {n : Int}

/-- A number without a unit is the whole of its text. -/
theorem number?_toString (n : Int) : number? (toString n).toList =
    some (⟨decide (n < 0), Nat.toDigits 10 n.natAbs, none, none⟩, []) := by
  have hne : (Nat.toDigits 10 n.natAbs).isEmpty = false :=
    List.isEmpty_eq_false_iff.mpr Nat.toDigits_ne_nil
  have hspan := TableAudit.Number.span_toDigits n.natAbs
  have hminus : '-' ∉ Nat.toDigits 10 n.natAbs := fun h => by
    cases TableAudit.Number.isDigit_of_mem_toDigits h
  rw [TableAudit.Number.toString_toList]
  generalize Nat.toDigits 10 n.natAbs = ds at hne hspan hminus
  by_cases hneg : n < 0
  · rw [if_pos hneg, List.cons_append, List.nil_append, decide_eq_true hneg]
    simp only [number?, hspan, hne]
    rfl
  · rw [if_neg hneg, List.nil_append, decide_eq_false hneg]
    cases ds with
    | nil => cases hne
    | cons d ds =>
        have hd : d ≠ '-' := fun h => hminus (h ▸ List.mem_cons_self)
        unfold number?
        split
        next heq =>
          split at heq
          next hcons => exact absurd (List.cons.inj hcons).1 hd
          next =>
            cases heq
            simp only [hspan, hne]
            rfl

theorem lower_eq_map {cs : List Char} {g : Char → Char}
    (h : ∀ c ∈ cs, c.toNat ≠ 304 ∧ Text.toLower c = g c) : Text.lower cs = cs.map g := by
  rw [Text.lower, List.map_eq_flatMap]
  refine List.flatMap_congr fun c hc => ?_
  rw [if_neg (h c hc).1, (h c hc).2]

/-- Digits have no lower case. -/
theorem toLower_digit {c : Char} (h : c.isDigit = true) :
    c.toNat ≠ 304 ∧ Text.toLower c = c := by
  have hsmall : c.toNat ≤ 57 := by
    simp only [Char.isDigit, Bool.and_eq_true, decide_eq_true_eq] at h
    exact h.2
  rw [Text.toLower, if_pos (by omega)]
  exact ⟨by omega, TableAudit.Number.toLower_digit h⟩

/-- Nothing in the text of an integer is changed before parts are looked for. -/
theorem canonical_toString (n : Int) : canonical (toString n).toList = (toString n).toList := by
  have hlower : Text.lower (toString n).toList = (toString n).toList := by
    rw [lower_eq_map (g := id), List.map_id]
    intro c hc
    obtain rfl | hdigit := TableAudit.Number.mem_toString hc
    · exact ⟨by decide, rfl⟩
    · exact toLower_digit hdigit
  have htrim : Text.trimChars (toString n).toList = (toString n).toList :=
    (Text.trimmed_of_not_blank (TableAudit.Number.toString_not_blank n)).trimChars
  rw [canonical, htrim, hlower, List.filter_eq_self]
  intro c hc
  obtain rfl | hdigit := TableAudit.Number.mem_toString hc
  · rfl
  · simp only [decide_eq_true_eq]
    rintro rfl
    cases hdigit

theorem part?_toString {f : Form} (hf : TableAudit.Number.form? (toString n).toList = some f) :
    part? (toString n).toList = some (⟨f, []⟩, []) := by
  obtain rfl := Option.some.inj ((TableAudit.Number.form?_toString n).symm.trans hf)
  rw [part?, number?_toString]
  rfl

/-- The sum of a single part without a unit. -/
theorem sumParts_single {source : Value} {total : Binary64} {c : Char} {cs : List Char} {f : Form}
    (hc : isBlank c = false) (hp : part? (c :: cs) = some (⟨f, []⟩, [])) (fuel : Nat) :
    sumParts source (fuel + 1) total (c :: cs) =
      .ok (total.add (f.double.mul (Binary64.ofInt 1))) := by
  have hunit : unit? (String.ofList []) = some 1 := by decide
  rw [sumParts, if_neg (by simp [hc])]
  simp only [hp, hunit]
  cases fuel <;> rfl

/-- A double that is an integer is rounded to it. -/
theorem rounded_integer {x : Binary64} (hx : x.isFinite = true) (hv : x.value = n) :
    rounded x = .ok n := by
  obtain ⟨k, hround, hnear⟩ := Binary64.roundEven?_near hx
  have hsame : k = n := by
    rw [hv] at hnear
    have hlt : |(k : ℚ) - n| < 1 := by linarith
    have hint : |k - n| < 1 := by exact_mod_cast hlt
    rw [Int.abs_lt_one_iff] at hint
    omega
  match x, hx with
  | .finite s m e, _ => simp only [rounded, hround, hsame]

/-- The text of an integer lasts as many milliseconds. -/
theorem ofText_toString (h : n.natAbs < 10 ^ 15) (source : Value) :
    ofText source (toString n).toList = .ok n := by
  have hf := TableAudit.Number.form?_toString n
  obtain ⟨hfinite, hvalue⟩ := TableAudit.Number.double_toString h hf
  obtain ⟨hone, hunit⟩ := Binary64.ofInt_exact (Binary64.representable_int (n := 1) (by decide))
  have hrep : Binary64.Representable n := Binary64.representable_int (by omega)
  obtain ⟨hmul, hproduct⟩ := Binary64.mul_exact hfinite hone (by
    rw [hvalue, hunit, Int.cast_one, mul_one]
    exact hrep)
  rw [hvalue, hunit, Int.cast_one, mul_one] at hproduct
  obtain ⟨hadd, hsum⟩ := Binary64.add_exact (x := Binary64.zero false) rfl hmul (by
    rw [Binary64.value_zero, hproduct, zero_add]
    exact hrep)
  rw [Binary64.value_zero, hproduct, zero_add] at hsum
  have hpart := part?_toString hf
  have hblank := TableAudit.Number.toString_not_blank n
  obtain ⟨c, cs, hcs⟩ := List.exists_cons_of_ne_nil (l := (toString n).toList) fun hnil => by
    rw [hnil] at hf
    cases hf
  simp only [ofText, canonical_toString]
  rw [hcs] at hpart hblank ⊢
  have hc := hblank c List.mem_cons_self
  rw [if_neg (by simp), if_neg (by simp [hc]), sumParts_single hc hpart]
  simp only [rounded_integer hadd hsum]
  rfl

end TableAudit.Duration
