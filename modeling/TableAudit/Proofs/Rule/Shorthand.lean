import TableAudit.Proofs.Duration
import TableAudit.Proofs.Json.Documents
import TableAudit.Proofs.Rule.Draft
import TableAudit.Proofs.Text.Cutting

/-!
# Reading the short way of writing

The short way does not say what kind of value a property has: a text that looks like a truth value
or a number is read as one. Flags and finite numbers are read back as themselves, and so are texts
that look like neither; the span of a date may look like a number if that number stands for the
same span.
-/

namespace TableAudit.Rule

open TableAudit.Text (Trimmed trimChars splitAll cutAt? isBlank)
open TableAudit.Number (Numeral Binary64 form? isNumberChar)

variable {cs : List Char} {key : String} {σ : Setting} {v : Value}

/-- The text looks like a truth value or a number. -/
def LooksTyped (cs : List Char) : Prop :=
  TableAudit.Text.lower cs = "true".toList ∨ TableAudit.Text.lower cs = "false".toList ∨
    (form? cs).isSome = true

/-! ### Values in the short way -/

theorem scalar_of_not_looksTyped (ht : Trimmed cs) (h : ¬ LooksTyped cs) :
    scalar cs = .ok (.text (String.ofList cs)) := by
  simp only [LooksTyped, not_or, Bool.not_eq_true, Option.isSome_eq_false_iff,
    Option.isNone_iff_eq_none] at h
  simp only [scalar, ht.trimChars, if_neg h.1, if_neg h.2.1, h.2.2]

/-- What looks like a truth value or a number is not read as a text. -/
theorem scalar_of_looksTyped (ht : Trimmed cs) (h : LooksTyped cs) (hv : scalar cs = .ok v) :
    (∃ b, v = .bool b) ∨ ∃ n : TableAudit.Number, v = n.toValue := by
  simp only [scalar, ht.trimChars] at hv
  split at hv
  next =>
    cases hv
    exact Or.inl ⟨true, rfl⟩
  next htrue =>
    split at hv
    next =>
      cases hv
      exact Or.inl ⟨false, rfl⟩
    next hfalse =>
      obtain ⟨f, hf⟩ := Option.isSome_iff_exists.mp ((h.resolve_left htrue).resolve_left hfalse)
      rw [hf] at hv
      split at hv
      next heq => cases heq
      next =>
        split at hv
        next =>
          obtain ⟨n, -, hn⟩ : ∃ n, TableAudit.Number.readInteger cs = .ok n ∧ Value.int n = v := by
            cases hread : TableAudit.Number.readInteger cs with
            | error e => rw [hread] at hv; cases hv
            | ok n => rw [hread] at hv; cases hv; exact ⟨n, rfl, rfl⟩
          exact Or.inr ⟨.int n, hn.symm⟩
        next =>
          split at hv
          next x _ =>
            cases hv
            exact Or.inr ⟨.float x, rfl⟩
          next => cases hv

section Numerals

variable {n : Numeral}

theorem chars_not_blank (h : n.Standard) : ∀ c ∈ n.chars, isBlank c = false :=
  fun c hc => TableAudit.Number.isNumberChar_not_blank
    (TableAudit.Number.form_chars (Numeral.form?_chars h) c hc)

/-- A numeral is no truth value. -/
theorem lower_chars (h : n.Standard) : TableAudit.Text.lower n.chars ≠ "true".toList ∧
    TableAudit.Text.lower n.chars ≠ "false".toList := by
  obtain ⟨c, cs, hcs, hc⟩ := h.first []
  rw [List.append_nil] at hcs
  have hsmall : c.toNat < 128 ∧ c.toLower = c ∧ c ≠ 't' ∧ c ≠ 'f' := by
    obtain hc | ⟨rfl, -⟩ := hc
    · refine ⟨?_, TableAudit.Number.toLower_digit hc,
        (TableAudit.Number.ne_of_isDigit hc (by decide)).symm,
        (TableAudit.Number.ne_of_isDigit hc (by decide)).symm⟩
      simp only [Char.isDigit, Bool.and_eq_true, decide_eq_true_eq] at hc
      have hhigh : c.toNat ≤ 57 := hc.2
      omega
    · decide
  have hlower : TableAudit.Text.lower n.chars = c :: TableAudit.Text.lower cs := by
    rw [hcs, TableAudit.Text.lower, List.flatMap_cons, if_neg (by omega), TableAudit.Text.toLower,
      if_pos hsmall.1, hsmall.2.1]
    rfl
  rw [hlower]
  exact ⟨fun heq => hsmall.2.2.1 (List.cons.inj heq).1,
    fun heq => hsmall.2.2.2 (List.cons.inj heq).1⟩

theorem unspaced_chars (h : n.Standard) : TableAudit.Number.unspaced n.chars = n.chars := by
  have hkeep {cs : List Char} (hcs : ∀ c ∈ cs, isBlank c = false) :
      cs.dropWhile TableAudit.Number.isSpace = cs := by
    cases cs with
    | nil => rfl
    | cons c cs =>
        refine List.dropWhile_cons_of_neg fun hc => ?_
        have := hcs c List.mem_cons_self
        rw [TableAudit.Number.isSpace_blank hc] at this
        cases this
  rw [TableAudit.Number.unspaced, hkeep (chars_not_blank h),
    hkeep fun c hc => chars_not_blank h c (List.mem_reverse.mp hc), List.reverse_reverse]

/-- No numeral is a word for a number. -/
theorem wordValue_chars (h : n.Standard) : TableAudit.Number.wordValue? n.chars = none := by
  obtain ⟨c, cs, hcs, hc⟩ := h.first []
  rw [List.append_nil] at hcs
  obtain ⟨d, ds, hspan, hd⟩ : ∃ d ds, (TableAudit.Number.spanSign (n.chars.map Char.toLower)).2 =
      d :: ds ∧ d.isDigit = true := by
    rw [hcs]
    obtain hc | ⟨rfl, d, ds, rfl, hd⟩ := hc
    · refine ⟨c, cs.map Char.toLower, ?_, hc⟩
      rw [List.map_cons, TableAudit.Number.toLower_digit hc]
      unfold TableAudit.Number.spanSign
      split
      next heq => exact absurd hc (by rw [(List.cons.inj heq).1]; decide)
      next heq => exact absurd hc (by rw [(List.cons.inj heq).1]; decide)
      next => rfl
    · refine ⟨d, ds.map Char.toLower, ?_, hd⟩
      rw [List.map_cons, List.map_cons, TableAudit.Number.toLower_digit hd]
      rfl
  have hne (e : Char) (es : List Char) (he : e.isDigit = false) : d :: ds ≠ e :: es :=
    fun heq => TableAudit.Number.ne_of_isDigit hd he (List.cons.inj heq).1.symm
  simp only [TableAudit.Number.wordValue?, hspan]
  rw [if_neg, if_neg]
  · exact hne 'n' _ rfl
  · rintro (heq | heq)
    · exact hne 'i' _ rfl heq
    · exact hne 'i' _ rfl heq

theorem scalar_chars (h : n.Standard) : scalar n.chars =
    if n.form.isInteger then n.form.integer.map .int else .ok (.float n.form.double) := by
  have hform := Numeral.form?_chars h
  have hread : (TableAudit.Number.withoutUnderscores? false n.chars >>= form?) = some n.form := by
    rw [TableAudit.Number.withoutUnderscores_of_form hform]
    exact hform
  have htrim : trimChars n.chars = n.chars :=
    (TableAudit.Text.trimmed_of_not_blank (chars_not_blank h)).trimChars
  simp only [scalar, htrim, if_neg (lower_chars h).1, if_neg (lower_chars h).2, hform]
  split
  next hi =>
    rw [TableAudit.Number.readInteger, unspaced_chars h, hread]
    simp only [hi, if_true]
  next =>
    simp only [TableAudit.Number.readDouble?, unspaced_chars h, wordValue_chars h, hread]
    rfl

end Numerals

/-! ### Settings in the short way -/

namespace Setting

/-- The setting can be put between bars: its texts begin and end without blanks and hold no bar,
those of a list no comma either. -/
def Writable : Setting → Prop
  | flag _ => True
  | number (.int _) => True
  | number (.float x) => x.IsDouble
  | text s => Trimmed s.toList ∧ '|' ∉ s.toList
  | span s => Trimmed s.toList ∧ '|' ∉ s.toList
  | texts items => ∀ s ∈ items, Trimmed s.toList ∧ '|' ∉ s.toList ∧ ',' ∉ s.toList

/-- The short way says what the setting is: a number is finite, a text does not look like a truth
value or a number, and a span that does is the plain text of what is read and as long. -/
def Plain : Setting → Prop
  | flag _ => True
  | number (.int _) => True
  | number (.float x) => x.isFinite = true
  | text s => ¬ LooksTyped s.toList
  | span s => LooksTyped s.toList → ∃ v millis, scalar s.toList = .ok v ∧ v.plain = s ∧
      Duration.ofValue v = .ok millis ∧ Duration.ofText (.text s) s.toList = .ok millis
  | texts items => items ≠ [] ∧ ∀ s, items = [s] → ¬ LooksTyped s.toList

end Setting

section Settings

variable {n : TableAudit.Number}

theorem scalar_flag (b : Bool) : scalar (Setting.flag b).short = .ok (.bool b) := by
  cases b <;> rfl

theorem scalar_int (n : Int) : scalar (Setting.number (.int n)).short =
    if Json.fits (.int n) then .ok (.int n) else .error .digitLimit := by
  have hlimit : Json.digitLimit = TableAudit.Number.digitLimit := rfl
  have hform : (Numeral.ofInt n).form.integer =
      if Json.fits (.int n) then .ok n else .error .digitLimit := by
    simp only [TableAudit.Number.Form.integer, Numeral.form, Numeral.ofInt,
      TableAudit.Number.digitsValue_toDigits, Json.fits, decide_eq_true_eq, hlimit]
    by_cases h : TableAudit.Number.digitLimit < (Nat.toDigits 10 n.natAbs).length
    · rw [if_pos h, if_neg (not_le.mpr h)]
    · rw [if_neg h, if_pos (not_lt.mp h)]
      congr 1
      split <;> omega
  have hinteger : (Numeral.ofInt n).form.isInteger = true := rfl
  change scalar (toString n).toList = _
  rw [← Numeral.chars_ofInt, scalar_chars (Numeral.standard_ofInt n), if_pos hinteger, hform]
  split <;> rfl

theorem scalar_float {x : Binary64} (h : x.IsDouble) (hx : x.isFinite = true) :
    scalar (Setting.number (.float x)).short = .ok (.float x) := by
  match x, h with
  | .finite s m e, h =>
      obtain ⟨n, hn, hchars, hfractional, hdouble⟩ := Numeral.exists_ofFinite h s
      change scalar (Binary64.finite s m e).text.toList = _
      rw [← hchars, scalar_chars hn, hfractional, hdouble]
      rfl

/-- Words for numbers stay texts. -/
theorem scalar_not_finite {x : Binary64} (h : x.isFinite = false) :
    ∃ s, scalar (Setting.number (.float x)).short = .ok (.text s) := by
  match x with
  | .nan => exact ⟨_, rfl⟩
  | .infinity true => exact ⟨_, rfl⟩
  | .infinity false => exact ⟨_, rfl⟩

theorem number_chars (hw : (Setting.number n).Writable) :
    ∀ c ∈ (Setting.number n).short, isBlank c = false ∧ c ≠ '|' := by
  have hnumeral {m : Numeral} (h : m.Standard) : ∀ c ∈ m.chars, isBlank c = false ∧ c ≠ '|' := by
    refine fun c hc => ⟨chars_not_blank h c hc, ?_⟩
    rintro rfl
    exact absurd (TableAudit.Number.form_chars (Numeral.form?_chars h) '|' hc) (by decide)
  have hword {cs : List Char} (h : cs.all (fun c => !isBlank c && c != '|') = true) :
      ∀ c ∈ cs, isBlank c = false ∧ c ≠ '|' := by
    intro c hc
    simpa using List.all_eq_true.mp h c hc
  match n, hw with
  | .int n, _ =>
      change ∀ c ∈ (toString n).toList, _
      rw [← Numeral.chars_ofInt]
      exact hnumeral (Numeral.standard_ofInt n)
  | .float .nan, _ => exact hword rfl
  | .float (.infinity true), _ => exact hword rfl
  | .float (.infinity false), _ => exact hword rfl
  | .float (.finite s m e), hw =>
      obtain ⟨m', hm, hchars, -, -⟩ := Numeral.exists_ofFinite hw s
      change ∀ c ∈ (Binary64.finite s m e).text.toList, _
      rw [← hchars]
      exact hnumeral hm

/-- A text with a comma looks like neither a truth value nor a number. -/
theorem not_looksTyped_of_comma (h : ',' ∈ cs) : ¬ LooksTyped cs := by
  have hlower : ',' ∈ TableAudit.Text.lower cs := List.mem_flatMap.mpr ⟨',', h, by decide⟩
  rintro (heq | heq | hform)
  · rw [heq] at hlower
    exact absurd hlower (by decide)
  · rw [heq] at hlower
    exact absurd hlower (by decide)
  · obtain ⟨f, hf⟩ := Option.isSome_iff_exists.mp hform
    exact absurd (TableAudit.Number.form_chars hf ',' h) (by decide)

variable {items : List String}

theorem trimmed_texts (hw : (Setting.texts items).Writable) :
    Trimmed (Setting.texts items).short := by
  refine TableAudit.Text.trimmed_intercalate (fun piece hpiece => ?_) (by decide)
  obtain ⟨s, hs, rfl⟩ := List.mem_map.mp hpiece
  exact (hw s hs).1

theorem trimmed_short (hw : σ.Writable) : Trimmed σ.short := by
  match σ with
  | .flag true => exact TableAudit.Text.trimmed_of_all rfl
  | .flag false => exact TableAudit.Text.trimmed_of_all rfl
  | .number n => exact TableAudit.Text.trimmed_of_not_blank fun c hc => (number_chars hw c hc).1
  | .text s => exact hw.1
  | .span s => exact hw.1
  | .texts items => exact trimmed_texts hw

theorem bar_notMem_short (hw : σ.Writable) : '|' ∉ σ.short := by
  match σ with
  | .flag true => decide
  | .flag false => decide
  | .number n => exact fun hc => (number_chars hw '|' hc).2 rfl
  | .text s => exact hw.2
  | .span s => exact hw.2
  | .texts [] => exact List.not_mem_nil
  | .texts (s :: items) =>
      obtain ⟨hs, hitems⟩ := List.forall_mem_cons.mp hw
      rw [Setting.short, List.map_cons, TableAudit.Text.intercalate_cons]
      refine TableAudit.Text.notMem_flatMap hs.2.1 (fun piece hpiece => ?_) (by decide)
      obtain ⟨s', hs', rfl⟩ := List.mem_map.mp hpiece
      exact (hitems s' hs').2.1

/-- Joined texts are taken apart again. -/
theorem texts_joined (hw : (Setting.texts items).Writable) (hne : items ≠ []) (key : String) :
    texts key (.text (String.ofList (Setting.texts items).short)) = listed key items := by
  have hpieces : ∀ piece ∈ items.map String.toList, ',' ∉ piece := by
    rintro _ hpiece
    obtain ⟨s, hs, rfl⟩ := List.mem_map.mp hpiece
    exact (hw s hs).2.2
  have hback : items.map ((fun cs => String.ofList (trimChars cs)) ∘ String.toList) = items := by
    refine (List.map_congr_left fun s hs => ?_).trans (List.map_id items)
    rw [Function.comp_apply, (hw s hs).1.trimChars, String.ofList_toList]
    rfl
  rw [texts, String.toList_ofList, Setting.short,
    TableAudit.Text.splitAll_intercalate (by simpa using hne) hpieces, List.map_map, hback, listed,
    if_neg hne]

/-- Only a single text in a list can look like a truth value or a number. -/
theorem looksTyped_texts (h : LooksTyped (Setting.texts items).short) (hne : items ≠ []) :
    ∃ s, items = [s] ∧ LooksTyped s.toList := by
  match items, hne with
  | [s], _ =>
      refine ⟨s, rfl, ?_⟩
      rw [Setting.short, List.map_singleton, List.intercalate_singleton] at h
      exact h
  | s :: s' :: items, _ =>
      refine absurd h (not_looksTyped_of_comma ?_)
      rw [Setting.short, List.map_cons, List.map_cons, List.intercalate_cons_cons]
      simp

/-- A number after which dates expire. -/
theorem expiry?_number (n : TableAudit.Number) : expiry? [("expire", n.toValue)] =
    match Duration.ofValue n.toValue with
    | .ok millis => .ok (some ⟨n.toValue.plain, millis⟩)
    | .error (.mistake m) => wrong (.badExpiry m)
    | .error (.fault f) => .error (.fault f) := by
  cases n <;> rfl

/-- The short way conveys a plain setting, unless an integer has too many digits. -/
theorem Setting.Plain.scalar (hp : σ.Plain) (hw : σ.Writable) (hf : Json.fits σ.value = true) :
    ∃ v, Rule.scalar σ.short = .ok v ∧ σ.Conveyed v := by
  match σ with
  | .flag b => exact ⟨_, scalar_flag b, rfl⟩
  | .number (.int n) =>
      refine ⟨_, (scalar_int n).trans (if_pos hf), rfl⟩
  | .number (.float x) => exact ⟨_, scalar_float hw hp, rfl⟩
  | .text s =>
      refine ⟨_, scalar_of_not_looksTyped hw.1 hp, ?_⟩
      exact congrArg Value.text String.ofList_toList
  | .span s =>
      by_cases hs : LooksTyped s.toList
      · obtain ⟨v, millis, hv, hplain, hvalue, htext⟩ := hp hs
        refine ⟨v, hv, ?_⟩
        obtain ⟨b, rfl⟩ | ⟨n, rfl⟩ := scalar_of_looksTyped hw.1 hs hv
        · cases hvalue
        · have htimed : timed s = .ok ⟨s, millis⟩ := by rw [timed, htext]
          change expiry? [("expire", n.toValue)] = _
          rw [htimed, expiry?_number, hvalue, hplain]
          rfl
      · refine ⟨_, scalar_of_not_looksTyped hw.1 hs, ?_⟩
        have hback : String.ofList (Setting.span s).short = s := String.ofList_toList
        rw [hback]
        exact Draft.conveyed_value (.span s)
  | .texts items =>
      obtain ⟨hne, hsingle⟩ := hp
      refine ⟨_, scalar_of_not_looksTyped (trimmed_texts hw) fun h => ?_,
        texts_joined hw hne⟩
      obtain ⟨s, hs, hlooks⟩ := looksTyped_texts h hne
      exact hsingle s hs hlooks

/-- Only an integer can be too long. -/
theorem scalar_long (hf : Json.fits σ.value = false) :
    Rule.scalar σ.short = .error .digitLimit := by
  match σ with
  | .number (.int n) => exact (scalar_int n).trans (if_neg (Bool.eq_false_iff.mp hf))
  | .texts items => cases (Json.allFit_texts items).symm.trans hf

/-- A plain number of milliseconds is the same span either way. -/
theorem plain_span {k : Int} (h : k.natAbs < 10 ^ 15) : (Setting.span (toString k)).Plain := by
  intro _
  have hfits : Json.fits (.int k) = true := by
    have hlength : (Nat.toDigits 10 k.natAbs).length ≤ 15 :=
      (Nat.length_toDigits_le_iff (by decide) (by decide)).mpr h
    have hlimit : 15 ≤ Json.digitLimit := by decide
    exact decide_eq_true (hlength.trans hlimit)
  exact ⟨.int k, k, (scalar_int k).trans (if_pos hfits), rfl, rfl, Duration.ofText_toString h _⟩

/-- A value that is read without complaint, and as the same span where it is one. -/
def Setting.Accepts : Setting → Value → Prop
  | flag _, _ => True
  | number _, v => v = .null ∨ v.number?.isSome = true
  | text _, v => v = .null ∨ v.isText = true
  | span s, v => ∃ e, timed s = .ok e ∧ expiry? [("expire", v)] = .ok (some e)
  | texts items, v => items ≠ [] ∧ ∃ key l, Rule.texts key v = .ok l

theorem timed_ok {s : String} {e : Expiry} (h : timed s = .ok e) :
    ∃ millis, Duration.ofText (.text s) s.toList = .ok millis ∧ e = ⟨s, millis⟩ := by
  rw [timed] at h
  split at h
  next millis heq =>
    cases h
    exact ⟨millis, heq, rfl⟩
  next => cases h
  next => cases h

/-- A value that is read without complaint shows the setting plain. -/
theorem Setting.Accepts.plain (ha : σ.Accepts v) (hw : σ.Writable)
    (hv : Rule.scalar σ.short = .ok v) : σ.Plain := by
  match σ with
  | .flag b => trivial
  | .number (.int n) => trivial
  | .number (.float x) =>
      by_contra hx
      obtain ⟨s, hs⟩ := scalar_not_finite (Bool.eq_false_iff.mpr hx)
      cases hv.symm.trans hs
      obtain ha | ha := ha <;> cases ha
  | .text s =>
      intro hs
      obtain ⟨b, rfl⟩ | ⟨n, rfl⟩ := scalar_of_looksTyped hw.1 hs hv
      · obtain ha | ha := ha <;> cases ha
      · cases n <;> obtain ha | ha := ha <;> cases ha
  | .span s =>
      intro hs
      obtain ⟨e, htimed, hexpiry⟩ := ha
      obtain ⟨millis, htext, rfl⟩ := timed_ok htimed
      obtain ⟨b, rfl⟩ | ⟨n, rfl⟩ := scalar_of_looksTyped hw.1 hs hv
      · cases b <;> cases hexpiry
      · rw [expiry?_number] at hexpiry
        split at hexpiry
        next found hvalue =>
          injection hexpiry with hexpiry
          injection hexpiry with hexpiry
          injection hexpiry with hplain hmillis
          exact ⟨n.toValue, millis, hv, hplain, hmillis ▸ hvalue, htext⟩
        next => cases hexpiry
        next => cases hexpiry
  | .texts items =>
      obtain ⟨hne, key, l, hl⟩ := ha
      refine ⟨hne, fun s hitems hs => ?_⟩
      have hlooks : LooksTyped (Setting.texts items).short := by
        rw [hitems, Setting.short, List.map_singleton, List.intercalate_singleton]
        exact hs
      obtain ⟨b, rfl⟩ | ⟨n, rfl⟩ := scalar_of_looksTyped (trimmed_texts hw) hlooks hv
      · cases hl
      · cases n <;> cases hl

end Settings

end TableAudit.Rule
