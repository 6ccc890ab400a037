import Mathlib.Algebra.Ring.Int.Defs
import TableAudit.Proofs.Cell.Writable
import TableAudit.Proofs.Fault
import TableAudit.Proofs.Number.Digits
import TableAudit.Proofs.Text.Cutting

/-!
# Which payloads have a text

A payload of any shape has a normal text, unless an integer with too many digits is to be written
for it or the hint at its type is an infinite number. A text is its own text. The exception is the
empty text in a column that checks do not look into: it stands for nothing there only as long as
nothing is what it is taken for. The text of a number is never blank.
-/

namespace TableAudit.Cell

open Value (IsShort)

variable {t : ColumnType} {hint raw : Value} {s : String} {n : Int}

/-- An integer is written for a payload in a column of a type. -/
def Takes (t : ColumnType) (raw : Value) (n : Int) : Prop :=
  ∃ v ∈ (ofPayload t raw).sources, v.Spells n

/-- Only integers in the payload are written. -/
theorem Takes.spells (h : Takes t raw n) : raw.Spells n := by
  obtain ⟨v, hv, hn⟩ := h
  exact stemsFrom_ofPayload t raw v hv n hn

/-- An integer is written for itself unless its cell is never looked into. -/
theorem takes_int (h : unsupportedType? t = none) (n : Int) : Takes t (.int n) n := by
  have hcell : ofPayload t (.int n) = ofNumber t (.int n) := by simp only [ofPayload, h]
  refine ⟨.int n, ?_, .int n⟩
  rw [hcell, sources_ofNumber]
  exact List.mem_singleton_self _

theorem isWritable_cell_iff :
    (ofPayload t raw).isWritable = true ↔ ∀ n, Takes t raw n → IsShort n := by
  rw [isWritable, List.all_eq_true]
  constructor
  · rintro h n ⟨v, hv, hn⟩
    exact hn.isShort (h v hv)
  · intro h v hv
    exact Value.isWritable_iff.mpr fun n hn => h n ⟨v, hv, hn⟩

theorem writtenText_ok_iff :
    writtenText t raw = .ok s ↔ (∀ n, Takes t raw n → IsShort n) ∧ normalText t raw = s := by
  rw [← isWritable_cell_iff, writtenText, written, normalText]
  cases (ofPayload t raw).isWritable <;> simp

theorem hintedText_ok_iff :
    hintedText hint raw = .ok s ↔ ∃ t, hintedType hint = .ok t ∧
      (∀ n, Takes t raw n → IsShort n) ∧ normalText t raw = s := by
  rw [hintedText, bind_ok_iff]
  simp only [writtenText_ok_iff]

/-- No hint stands for the same type as a hint that is no code. -/
theorem hintedType_eq (hint : Value) : hintedType hint = ColumnType.ofCode hint := by
  cases hint <;> rfl

/-! ### Texts of texts -/

/-- A text is its own text, except in a column that checks do not look into. -/
theorem writtenText_text (t : ColumnType) (s : String) :
    writtenText t (.text s) = .ok (if (unsupportedType? t).isSome then unsupportedText else s) := by
  cases h : unsupportedType? t <;> simp only [writtenText, ofPayload, h] <;> rfl

theorem normalText_unsupported {kind : UnsupportedKind} (h : unsupportedType? t = some kind)
    (hraw : raw ≠ .null) : normalText t raw = unsupportedText := by
  cases raw with
  | null => exact absurd rfl hraw
  | _ => simp only [normalText, ofPayload, h, normal]

theorem unsupportedText_ne_empty : unsupportedText ≠ "" := by
  decide

/-- The text of a payload is its own text in a column of the same type, unless it is the empty text
for nothing in a column that checks do not look into. -/
theorem writtenText_again (h : normalText t raw = s) :
    writtenText t (.text s) = .ok s ↔ ¬ (raw = .null ∧ (unsupportedType? t).isSome = true) := by
  rw [writtenText_text]
  cases ht : unsupportedType? t with
  | none => simp
  | some kind =>
      by_cases hraw : raw = .null
      · subst hraw
        have hs : "" = s := h
        simp [← hs, unsupportedText_ne_empty]
      · rw [normalText_unsupported ht hraw] at h
        simp [hraw, h]

/-! ### Texts of numbers -/

theorem isBlankText_toString (n : Int) : Text.isBlankText (toString n) = false := by
  obtain ⟨c, hc⟩ := List.exists_mem_of_ne_nil (toString n).toList (by
    rw [Number.toString_toList]
    exact List.append_ne_nil_of_right_ne_nil _ Nat.toDigits_ne_nil)
  exact Text.isBlankText_eq_false ⟨c, hc, Number.toString_not_blank n c hc⟩

theorem point_mem_positional (ds : List Char) (e : Int) : '.' ∈ Number.Binary64.positional ds e := by
  rw [Number.Binary64.positional]
  split
  · simp
  · dsimp only
    split <;> simp

theorem exists_mark (d : Number.Decimal) :
    ∃ c ∈ Number.Binary64.decimalText d, Text.isBlank c = false := by
  rw [Number.Binary64.decimalText]
  split
  · exact ⟨'.', point_mem_positional _ _, rfl⟩
  · exact ⟨'e', by simp [Number.Binary64.scientific], rfl⟩

theorem isBlankText_double (x : Number.Binary64) : Text.isBlankText x.text = false := by
  cases x with
  | nan => rfl
  | infinity negative => cases negative <;> rfl
  | finite negative m e =>
      obtain ⟨c, hc, hblank⟩ : ∃ c ∈ (if m = 0 then ['0', '.', '0']
          else Number.Binary64.decimalText (Number.Binary64.shortest m e)),
          Text.isBlank c = false := by
        split
        · exact ⟨'0', List.mem_cons_self, rfl⟩
        · exact exists_mark _
      refine Text.isBlankText_eq_false ⟨c, ?_, hblank⟩
      rw [Number.Binary64.text, String.toList_ofList]
      cases negative with
      | false => exact hc
      | true => exact List.mem_cons_of_mem _ hc

theorem isBlankText_numberText (n : Number) : Text.isBlankText (numberText n) = false := by
  cases n with
  | int n => exact isBlankText_toString n
  | float x =>
      rw [numberText]
      split
      next h =>
        obtain ⟨m, hm⟩ : ∃ m, x.truncate? = some m := by
          cases x with
          | finite => exact ⟨_, rfl⟩
          | _ => simp [Number.Binary64.isIntegral] at h
        rw [hm]
        exact isBlankText_toString m
      next => exact isBlankText_double x

theorem isBlankText_instantText {n : Number} {s : String} (h : instantText? n = some s) :
    Text.isBlankText s = false := by
  obtain ⟨seconds, -, h⟩ := Option.bind_eq_some_iff.mp h
  obtain ⟨m, -, h⟩ := Option.bind_eq_some_iff.mp h
  obtain rfl := Option.some.inj h
  refine Text.isBlankText_eq_false ⟨'T', ?_, rfl⟩
  rw [Calendar.Moment.millisText, String.toList_ofList]
  simp

/-- The text of a number is never blank, whether it is taken for an instant or not. -/
theorem isBlankText_number (n : Number) : Text.isBlankText (Cell.number n).normal = false := by
  have hinstant : Text.isBlankText ((instantText? n).getD (numberText n)) = false := by
    cases h : instantText? n with
    | none => exact isBlankText_numberText n
    | some s => exact isBlankText_instantText h
  rw [normal]
  split
  · exact hinstant
  · exact isBlankText_numberText n

/-! ### Payloads with a text -/

theorem not_isShort_power {k : Nat} (hk : Number.digitLimit ≤ k) : ¬ IsShort (10 ^ k) := by
  rw [Value.isShort_iff, Int.natAbs_pow, Nat.not_lt]
  exact Nat.pow_le_pow_right (by decide) hk

end TableAudit.Cell
