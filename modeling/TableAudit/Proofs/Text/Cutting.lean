import Mathlib.Data.List.TakeWhile
import TableAudit.Text.Basic
import TableAudit.Text.Search

/-!
# Cutting written texts

Pieces that hold no separator are found again between the separators that join them. A text that
neither begins nor ends with a blank is not changed by trimming.
-/

namespace TableAudit.Text

variable {sep : Char} {cs rest : List Char} {pieces : List (List Char)}

theorem splitAll_of_notMem (h : sep ∉ cs) : splitAll sep cs = [cs] := by
  induction cs with
  | nil => rfl
  | cons c cs ih =>
      rw [List.mem_cons, not_or] at h
      rw [splitAll, if_neg (Ne.symm h.1), ih h.2]

theorem splitAll_append (h : sep ∉ cs) (rest : List Char) :
    splitAll sep (cs ++ sep :: rest) = cs :: splitAll sep rest := by
  induction cs with
  | nil => rw [List.nil_append, splitAll, if_pos rfl]
  | cons c cs ih =>
      rw [List.mem_cons, not_or] at h
      rw [List.cons_append, splitAll, if_neg (Ne.symm h.1), ih h.2]

/-- Pieces after separators are found again. -/
theorem splitAll_flatMap (h : sep ∉ cs) (hp : ∀ piece ∈ pieces, sep ∉ piece) :
    splitAll sep (cs ++ pieces.flatMap (sep :: ·)) = cs :: pieces := by
  induction pieces generalizing cs with
  | nil => rw [List.flatMap_nil, List.append_nil, splitAll_of_notMem h]
  | cons piece pieces ih =>
      rw [List.forall_mem_cons] at hp
      rw [List.flatMap_cons, List.cons_append, splitAll_append h, ih hp.1 hp.2]

theorem intercalate_cons (piece : List Char) (pieces : List (List Char)) :
    [sep].intercalate (piece :: pieces) = piece ++ pieces.flatMap (sep :: ·) := by
  induction pieces generalizing piece with
  | nil => rw [List.intercalate_singleton, List.flatMap_nil, List.append_nil]
  | cons piece' pieces ih =>
      rw [List.intercalate_cons_cons, ih, List.flatMap_cons, List.append_assoc]
      rfl

/-- Joined pieces are found again. -/
theorem splitAll_intercalate (hne : pieces ≠ []) (hp : ∀ piece ∈ pieces, sep ∉ piece) :
    splitAll sep ([sep].intercalate pieces) = pieces := by
  obtain ⟨piece, pieces, rfl⟩ := List.exists_cons_of_ne_nil hne
  rw [List.forall_mem_cons] at hp
  rw [intercalate_cons, splitAll_flatMap hp.1 hp.2]

theorem cutAt?_append (h : sep ∉ cs) (rest : List Char) :
    cutAt? sep (cs ++ sep :: rest) = some (cs, rest) := by
  induction cs with
  | nil => rw [List.nil_append, cutAt?, if_pos rfl]
  | cons c cs ih =>
      rw [List.mem_cons, not_or] at h
      rw [List.cons_append, cutAt?, if_neg (Ne.symm h.1), ih h.2]
      rfl

/-- The text neither begins nor ends with a blank. -/
structure Trimmed (cs : List Char) : Prop where
  head : ∀ c ∈ cs.head?, isBlank c = false
  last : ∀ c ∈ cs.getLast?, isBlank c = false

theorem dropWhile_blank (h : ∀ c ∈ cs.head?, isBlank c = false) : cs.dropWhile isBlank = cs := by
  cases cs with
  | nil => rfl
  | cons c cs => rw [List.dropWhile_cons_of_neg (by simp [h c rfl])]

theorem Trimmed.trimChars (h : Trimmed cs) : trimChars cs = cs := by
  rw [Text.trimChars, trimLeft, dropWhile_blank h.head, trimRight,
    dropWhile_blank (by rw [List.head?_reverse]; exact h.last), List.reverse_reverse]

theorem Trimmed.trim {s : String} (h : Trimmed s.toList) : trim s = s := by
  rw [Text.trim, h.trimChars, String.ofList_toList]

/-- Blanks around a trimmed text are trimmed. -/
theorem Trimmed.trimChars_around {front back : List Char} (h : Trimmed cs)
    (hf : ∀ c ∈ front, isBlank c = true) (hb : ∀ c ∈ back, isBlank c = true) :
    Text.trimChars (front ++ cs ++ back) = cs := by
  rw [Text.trimChars, trimLeft, List.append_assoc, List.dropWhile_append_of_pos hf]
  cases cs with
  | nil =>
      rw [List.nil_append, List.dropWhile_eq_nil_iff.mpr hb]
      rfl
  | cons c cs =>
      have hfront : ∀ d ∈ (c :: cs ++ back).head?, isBlank d = false := h.head
      rw [dropWhile_blank hfront, trimRight, List.reverse_append,
        List.dropWhile_append_of_pos (by simpa using hb),
        dropWhile_blank (by rw [List.head?_reverse]; exact h.last), List.reverse_reverse]

theorem trimmed_nil : Trimmed [] :=
  ⟨nofun, nofun⟩

/-- Two texts with a mark between them. -/
theorem Trimmed.join (ha : Trimmed cs) (hb : Trimmed rest) (hs : isBlank sep = false) :
    Trimmed (cs ++ sep :: rest) := by
  constructor
  · rw [List.head?_append]
    cases cs with
    | nil => rintro _ ⟨⟩; exact hs
    | cons c cs => exact ha.head
  · rw [List.getLast?_append]
    cases rest with
    | nil => rintro _ ⟨⟩; exact hs
    | cons c rest =>
        rw [List.getLast?_cons_cons]
        intro d hd
        refine hb.last d ?_
        rw [List.getLast?_eq_some_getLast (List.cons_ne_nil c rest)] at hd ⊢
        exact hd

theorem Trimmed.flatMap (h : Trimmed cs) (hp : ∀ piece ∈ pieces, Trimmed piece)
    (hs : isBlank sep = false) : Trimmed (cs ++ pieces.flatMap (sep :: ·)) := by
  induction pieces generalizing cs with
  | nil =>
      rw [List.flatMap_nil, List.append_nil]
      exact h
  | cons piece pieces ih =>
      rw [List.forall_mem_cons] at hp
      rw [List.flatMap_cons, ← List.append_assoc]
      exact ih (h.join hp.1 hs) hp.2

theorem trimmed_intercalate (hp : ∀ piece ∈ pieces, Trimmed piece) (hs : isBlank sep = false) :
    Trimmed ([sep].intercalate pieces) := by
  cases pieces with
  | nil => exact trimmed_nil
  | cons piece pieces =>
      rw [List.forall_mem_cons] at hp
      rw [intercalate_cons]
      exact hp.1.flatMap hp.2 hs

/-- A text without blanks is trimmed. -/
theorem trimmed_of_not_blank (h : ∀ c ∈ cs, isBlank c = false) : Trimmed cs :=
  ⟨fun c hc => h c (List.mem_of_mem_head? hc), fun c hc => h c (List.mem_of_mem_getLast? hc)⟩

theorem trimmed_of_all (h : cs.all (fun c => !isBlank c) = true) : Trimmed cs :=
  trimmed_of_not_blank fun c hc => by simpa using List.all_eq_true.mp h c hc

theorem notMem_flatMap {c : Char} (h : c ∉ cs) (hp : ∀ piece ∈ pieces, c ∉ piece) (hs : c ≠ sep) :
    c ∉ cs ++ pieces.flatMap (sep :: ·) := by
  rw [List.mem_append, List.mem_flatMap]
  rintro (hc | ⟨piece, hpiece, hc⟩)
  · exact h hc
  · exact (List.mem_cons.mp hc).elim hs (hp piece hpiece)

/-! ### Texts that are not blank -/

theorem isBlankText_eq_false {s : String} (h : ∃ c ∈ s.toList, isBlank c = false) :
    isBlankText s = false := by
  obtain ⟨c, hc, hb⟩ := h
  exact List.all_eq_false.mpr ⟨c, hc, by simp [hb]⟩

end TableAudit.Text
