import TableAudit.Json.Document
import TableAudit.Proofs.Json.RoundTrip

/-!
# Values that are sent as they are

The document of a value is what the receiver reads. For values of JSON whose numbers are finite and
whose integers are short enough to be written it is the value itself.
-/

namespace TableAudit.Json

open TableAudit.Number (Binary64)

variable {v : Value} {items : List Value} {fields : List (String × Value)}

theorem fits_list (items : List Value) : fits (.list items) = items.all fits := by
  change allFit items = _
  induction items with
  | nil => rfl
  | cons v items ih => rw [allFit, ih, List.all_cons]

theorem fits_object (fields : List (String × Value)) :
    fits (.object fields) = fields.all fun f => fits f.2 := by
  change entriesFit (fields.map fun f => (.text f.1, f.2)) = _
  induction fields with
  | nil => rfl
  | cons f fields ih => rw [List.map_cons, entriesFit, ih, List.all_cons]

theorem allFit_texts (texts : List String) : allFit (texts.map .text) = true := by
  induction texts with
  | nil => rfl
  | cons s texts ih =>
      rw [List.map_cons, allFit, ih]
      rfl

/-- A power of ten may have more digits than are read. -/
theorem fits_power {k : Nat} (hk : digitLimit ≤ k) : fits (.int (10 ^ k)) = false := by
  rw [fits, decide_eq_false_iff_not, Nat.length_toDigits_le_iff (by decide) (by decide),
    Int.natAbs_pow, not_lt]
  exact Nat.pow_le_pow_right (by decide) hk

/-- The values that are sent as they are: finite numbers, integers of no more digits than are written,
texts, truth values, nothing, and lists and objects of such values. -/
inductive IsDocument : Value → Prop
  | null : IsDocument .null
  | bool (b : Bool) : IsDocument (.bool b)
  | int {n : Int} (h : fits (.int n) = true) : IsDocument (.int n)
  | float {x : Binary64} (h : x.IsDouble) (hx : x.isFinite = true) : IsDocument (.float x)
  | text (s : String) : IsDocument (.text s)
  | list {items : List Value} (h : ∀ v ∈ items, IsDocument v) : IsDocument (.list items)
  | object {fields : List (String × Value)} (hkeys : (fields.map Prod.fst).Nodup)
      (h : ∀ f ∈ fields, IsDocument f.2) : IsDocument (.object fields)

namespace IsDocument

theorem isJson (h : IsDocument v) : IsJson v := by
  induction h with
  | null => exact .null
  | bool b => exact .bool b
  | int _ => exact .int _
  | float h _ => exact .float h
  | text s => exact .text s
  | list _ ih => exact .list ih
  | object hkeys _ ih => exact .object hkeys ih

theorem fits (h : IsDocument v) : fits v = true := by
  induction h with
  | null => rfl
  | bool b => rfl
  | int h => exact h
  | float _ _ => rfl
  | text s => rfl
  | list _ ih =>
      rw [fits_list, List.all_eq_true]
      exact ih
  | object _ _ ih =>
      rw [fits_object, List.all_eq_true]
      exact ih

end IsDocument

theorem documents_self (h : ∀ v ∈ items, document v = .ok v) : documents items = .ok items := by
  induction items with
  | nil => rfl
  | cons v items ih =>
      rw [List.forall_mem_cons] at h
      rw [documents, h.1, ih h.2]
      rfl

theorem documentEntries_self (h : ∀ f ∈ fields, document f.2 = .ok f.2) :
    documentEntries (fields.map fun f => (.text f.1, f.2)) =
      .ok (fields.map fun f => (.text f.1, f.2)) := by
  induction fields with
  | nil => rfl
  | cons f fields ih =>
      rw [List.forall_mem_cons] at h
      rw [List.map_cons, documentEntries, h.1, ih h.2]
      rfl

/-- Such a value is its own document. -/
theorem IsDocument.document_eq (h : IsDocument v) : document v = .ok v := by
  induction h with
  | null => rfl
  | bool b => rfl
  | @int n h =>
      have hshort : shortInteger n = .ok n := if_pos h
      rw [document, hshort]
      rfl
  | float _ hx =>
      rw [document, finiteFloat, if_pos hx]
      rfl
  | text s => rfl
  | list _ ih =>
      rw [document, documents_self ih]
      rfl
  | object hkeys _ ih =>
      rw [Value.object, document, documentEntries_self ih]
      exact congrArg (fun es => Except.ok (Value.map es)) (ofPairs_entries hkeys)

end TableAudit.Json
