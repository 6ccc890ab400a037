import Mathlib.Data.List.TakeDrop
import Mathlib.Data.List.TakeWhile
import TableAudit.Number.Reading
import TableAudit.Proofs.Text.Cutting

/-!
# What number texts are made of

A number text has only digits, signs, points and letters of exponents in it. So the strict reader
and the tolerant ones agree on it, but they do not on what may stand around it: an information
separator counts as a blank for the one and not for the others.
-/

namespace TableAudit.Number

open TableAudit.Text (isDecimalDigit isBlank trimChars)

variable {cs ds : List Char} {c : Char} {f : Form} {b : Bool}

/-- Whether a character can occur in a number text. -/
def isNumberChar (c : Char) : Bool :=
  isDecimalDigit c || c == '-' || c == '+' || c == '.' || c == 'e' || c == 'E'

/-- The blanks of which the code points lie among those of digits. -/
def blankRuns : List (Nat × Nat) :=
  [(133, 133), (160, 160), (5760, 5760), (8192, 8202), (8232, 8233), (8239, 8239), (8287, 8287),
    (12288, 12288)]

theorem isDecimalDigit_not_blank (h : isDecimalDigit c = true) : isBlank c = false := by
  rw [Bool.eq_false_iff]
  intro hb
  simp only [isBlank, Bool.or_eq_true, Bool.and_eq_true, decide_eq_true_eq, beq_iff_eq] at hb
  simp only [isDecimalDigit, Text.digitValue?] at h
  split at h
  next hlow =>
    split at h
    next hd =>
      simp only [Char.isDigit, Bool.and_eq_true, decide_eq_true_eq] at hd
      have h1 : 48 ≤ c.toNat := hd.1
      have h2 : c.toNat ≤ 57 := hd.2
      omega
    next => cases h
  next hhigh =>
    rw [Option.isSome_map, Option.isSome_iff_exists] at h
    obtain ⟨z, hz⟩ := h
    have hmem := List.mem_of_find?_eq_some hz
    have hrange := List.find?_some hz
    simp only [Bool.and_eq_true, decide_eq_true_eq] at hrange
    have hall : ∀ z ∈ Text.digitZeros, ∀ r ∈ blankRuns, r.2 < z ∨ z + 10 ≤ r.1 := by decide
    have hruns := hall z hmem
    simp only [blankRuns, List.forall_mem_cons] at hruns
    omega

theorem isNumberChar_not_blank (h : isNumberChar c = true) : isBlank c = false := by
  simp only [isNumberChar, Bool.or_eq_true, beq_iff_eq] at h
  obtain ((((h | rfl) | rfl) | rfl) | rfl) | rfl := h
  · exact isDecimalDigit_not_blank h
  all_goals decide

theorem mem_spanSign (h : c ∈ cs) : c = '-' ∨ c = '+' ∨ c ∈ (spanSign cs).2 := by
  unfold spanSign
  split
  · obtain rfl | h := List.mem_cons.mp h
    · exact Or.inl rfl
    · exact Or.inr (Or.inr h)
  · obtain rfl | h := List.mem_cons.mp h
    · exact Or.inr (Or.inl rfl)
    · exact Or.inr (Or.inr h)
  · exact Or.inr (Or.inr h)

theorem mem_span_digits (h : c ∈ cs) :
    isDecimalDigit c = true ∨ c ∈ (cs.span isDecimalDigit).2 := by
  rw [List.span_eq_takeWhile_dropWhile]
  rw [← List.takeWhile_append_dropWhile (p := isDecimalDigit) (l := cs), List.mem_append] at h
  exact h.imp_left List.mem_takeWhile_imp

theorem exponent_chars {e : Option Int} (h : exponent? cs = some e) :
    ∀ c ∈ cs, isNumberChar c = true := by
  cases cs with
  | nil => simp
  | cons d cs =>
      rw [exponent?] at h
      split at h
      next hd =>
        split at h
        next negative ds hs =>
          split at h
          next hall =>
            intro c hc
            obtain rfl | hc := List.mem_cons.mp hc
            · obtain rfl | rfl := hd <;> decide
            · obtain rfl | rfl | hc := mem_spanSign hc
              · decide
              · decide
              · rw [hs] at hc
                simp only [Bool.and_eq_true] at hall
                simp [isNumberChar, List.all_eq_true.mp hall.2 c hc]
          next => cases h
      next => cases h

/-- The form of a number text covers it, so nothing else can stand in it. -/
theorem form_chars (h : form? cs = some f) : ∀ c ∈ cs, isNumberChar c = true := by
  intro c hc
  obtain rfl | rfl | hbody := mem_spanSign hc
  · decide
  · decide
  obtain hd | hrest := mem_span_digits hbody
  · simp [isNumberChar, hd]
  simp only [form?] at h
  split at h
  next cs' rest hs =>
    rw [hs] at hrest
    obtain rfl | hc := List.mem_cons.mp hrest
    · decide
    obtain hd | hc := mem_span_digits hc
    · simp [isNumberChar, hd]
    split at h
    · cases h
    · obtain ⟨e, he, -⟩ := Option.map_eq_some_iff.mp h
      exact exponent_chars he c hc
  next =>
    split at h
    · cases h
    · obtain ⟨e, he, -⟩ := Option.map_eq_some_iff.mp h
      exact exponent_chars he c hrest

/-! ### What may stand around a number -/

theorem withoutUnderscores_of_form (h : form? cs = some f) (b : Bool) :
    withoutUnderscores? b cs = some cs := by
  have hne : ∀ c ∈ cs, c ≠ '_' := by
    rintro _ hc rfl
    exact absurd (form_chars h '_' hc) (by decide)
  clear h
  induction cs generalizing b with
  | nil => rfl
  | cons c cs ih =>
      rw [List.forall_mem_cons] at hne
      rw [withoutUnderscores?, if_neg hne.1, ih _ hne.2]
      · rfl
      · exact fun _ _ hc _ => hne.1 hc

theorem mem_withoutUnderscores (h : withoutUnderscores? b cs = some ds) (hc : c ∈ cs)
    (hne : c ≠ '_') : c ∈ ds := by
  induction b, cs using withoutUnderscores?.induct generalizing ds with
  | case1 b => cases hc
  | case2 b d cs hd ih =>
      rw [withoutUnderscores?, if_pos hd] at h
      obtain ⟨rest, hrest, rfl⟩ := Option.map_eq_some_iff.mp h
      obtain rfl | hc := List.mem_cons.mp hc
      · exact absurd rfl hne
      obtain rfl | hc := List.mem_cons.mp hc
      · exact List.mem_cons_self
      · exact List.mem_cons_of_mem _ (ih hrest hc)
  | case3 b d cs hd =>
      rw [withoutUnderscores?, if_neg hd] at h
      cases h
  | case4 b cs hcs =>
      rw [withoutUnderscores?, if_pos rfl] at h
      · cases h
      · exact hcs
  | case5 b d cs hcs hd ih =>
      rw [withoutUnderscores?, if_neg hd] at h
      · obtain ⟨rest, hrest, rfl⟩ := Option.map_eq_some_iff.mp h
        obtain rfl | hc := List.mem_cons.mp hc
        · exact List.mem_cons_self
        · exact List.mem_cons_of_mem _ (ih hrest hc)
      · exact hcs

theorem isSpace_blank (h : isSpace c = true) : isBlank c = true := by
  simp only [isSpace, Bool.and_eq_true] at h
  exact h.1

/-- A text without blanks is not changed by trimming. -/
theorem trim_eq_self {s : String} (h : ∀ c ∈ s.toList, isBlank c = false) : Text.trim s = s :=
  (Text.trimmed_of_not_blank h).trim

/-- The tolerant readers see what the strict one sees, unless it would have to be trimmed of
characters that are no spaces. -/
theorem trimChars_of_unspaced (h : ∀ c ∈ unspaced cs, isBlank c = false) :
    trimChars cs = unspaced cs := by
  have hfront : ∀ c ∈ cs.takeWhile isSpace, isBlank c = true :=
    fun c hc => isSpace_blank (List.mem_takeWhile_imp hc)
  have hback : ∀ c ∈ ((cs.dropWhile isSpace).reverse.takeWhile isSpace).reverse,
      isBlank c = true :=
    fun c hc => isSpace_blank (List.mem_takeWhile_imp (List.mem_reverse.mp hc))
  have hcs : cs = cs.takeWhile isSpace ++ unspaced cs ++
      ((cs.dropWhile isSpace).reverse.takeWhile isSpace).reverse := by
    rw [unspaced, List.append_assoc, ← List.reverse_append, List.takeWhile_append_dropWhile,
      List.reverse_reverse, List.takeWhile_append_dropWhile]
  calc
    trimChars cs = trimChars (cs.takeWhile isSpace ++ unspaced cs ++
        ((cs.dropWhile isSpace).reverse.takeWhile isSpace).reverse) := by rw [← hcs]
    _ = unspaced cs := (Text.trimmed_of_not_blank h).trimChars_around hfront hback

/-! ### The tolerant readers -/

theorem toLower_of_blank (h : isBlank c = true) : c.toLower = c := by
  refine dif_neg ?_
  rintro ⟨h1, h2⟩
  have hlow : 65 ≤ c.toNat := h1
  have hhigh : c.toNat ≤ 90 := h2
  simp only [isBlank, Bool.or_eq_true, Bool.and_eq_true, decide_eq_true_eq, beq_iff_eq] at h
  omega

/-- The words for numbers have no blanks in them. -/
theorem wordValue_chars {x : Binary64} (h : wordValue? cs = some x) :
    ∀ c ∈ cs, isBlank c = false := by
  intro c hc
  rw [Bool.eq_false_iff]
  intro hb
  have hmem : c ∈ cs.map Char.toLower := by
    rw [← toLower_of_blank hb]
    exact List.mem_map_of_mem hc
  have hsign {d : Char} (hd : isBlank d = false) : c ≠ d := by
    rintro rfl
    rw [hd] at hb
    cases hb
  have hword : c ∈ (spanSign (cs.map Char.toLower)).2 := by
    obtain h | h | h := mem_spanSign hmem
    · exact absurd h (hsign (by decide))
    · exact absurd h (hsign (by decide))
    · exact h
  have hletters {word : List Char} (hall : word.all (fun d => !isBlank d) = true)
      (hw : (spanSign (cs.map Char.toLower)).2 = word) : False := by
    have hnot := List.all_eq_true.mp hall c (hw ▸ hword)
    rw [hb] at hnot
    cases hnot
  simp only [wordValue?] at h
  split at h
  next hw =>
    obtain hw | hw := hw
    · exact hletters (by decide) hw
    · exact hletters (by decide) hw
  next =>
    split at h
    next hw => exact hletters (by decide) hw
    next => cases h

/-- What a tolerant reader finds a number in needs no trimming but of spaces. -/
theorem unspaced_of_read (h : (withoutUnderscores? b (unspaced cs) >>= form?) = some f) :
    unspaced cs = trimChars cs := by
  obtain ⟨ds, hds, hf⟩ := Option.bind_eq_some_iff.mp h
  refine (trimChars_of_unspaced fun c hc => ?_).symm
  by_cases hne : c = '_'
  · rw [hne]
    decide
  · exact isNumberChar_not_blank (form_chars hf c (mem_withoutUnderscores hds hc hne))

theorem read_of_form (h : form? (trimChars cs) = some f) (hu : unspaced cs = trimChars cs) :
    (withoutUnderscores? b (unspaced cs) >>= form?) = some f := by
  rw [hu, withoutUnderscores_of_form h]
  exact h

theorem read_of_separated (hu : unspaced cs ≠ trimChars cs) :
    (withoutUnderscores? b (unspaced cs) >>= form?) = none := by
  rw [Option.eq_none_iff_forall_ne_some]
  exact fun f hf => hu (unspaced_of_read hf)

/-- The tolerant reader of integers fails on a text that looks like an integer if separators stand
around it, or if it has too many digits. -/
theorem readInteger_error_iff (h : form? (trimChars cs) = some f) (hi : f.isInteger = true) :
    (∃ e, readInteger cs = .error e) ↔
      unspaced cs ≠ trimChars cs ∨ digitLimit < f.whole.length := by
  rw [readInteger]
  by_cases hu : unspaced cs = trimChars cs
  · rw [read_of_form h hu]
    simp only [hi, if_true, hu, ne_eq, not_true_eq_false, false_or, Form.integer]
    split <;> simp_all
  · rw [read_of_separated hu]
    simp [hu]

/-- The tolerant reader of doubles fails on a text that looks like a number if separators stand
around it. -/
theorem readDouble_none_iff (h : form? (trimChars cs) = some f) :
    readDouble? cs = none ↔ unspaced cs ≠ trimChars cs := by
  rw [readDouble?]
  cases hw : wordValue? (unspaced cs) with
  | some x => simp [trimChars_of_unspaced (wordValue_chars hw)]
  | none =>
      simp only [Option.map_eq_none_iff]
      by_cases hu : unspaced cs = trimChars cs
      · rw [read_of_form h hu]
        simp [hu]
      · rw [read_of_separated hu]
        simp [hu]

end TableAudit.Number
