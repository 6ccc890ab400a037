import Mathlib.Data.List.Infix
import TableAudit.Column.RuleText
import TableAudit.Proofs.Json.RoundTrip
import TableAudit.Proofs.Text.Cutting
import TableAudit.Proofs.Cell.Writable

/-!
# Rules put into descriptions

The object of a rule is put into a description as its JSON text, in one of the places in which
rules are looked for. It is found there again with the entries beside it, whatever the rule and
the entries are: the text mentions the key, so the search stops at it, no blank is at its ends but
those around it, and it is read as the object.
-/

namespace TableAudit

namespace Text

/-- A run is found just if it stands somewhere in the text. -/
theorem containsRun_iff {run cs : List Char} : containsRun run cs = true ↔ run <:+: cs := by
  induction cs with
  | nil => rw [containsRun, List.isEmpty_iff, List.infix_nil]
  | cons c cs ih =>
      rw [containsRun, Bool.or_eq_true, List.isPrefixOf_iff_prefix, ih, List.infix_cons_iff]

end Text

namespace Json

variable {v : Value} {items : List Value} {fields : List (String × Value)}

theorem isJson_object_iff : IsJson (.object fields) ↔
    (fields.map Prod.fst).Nodup ∧ ∀ f ∈ fields, IsJson f.2 := by
  constructor
  · intro h
    generalize hv : Value.object fields = v at h
    cases h with
    | object hkeys hall =>
        have hinj : Function.Injective entry := by
          rintro ⟨k, v⟩ ⟨k', v'⟩ heq
          cases heq
          rfl
        rw [List.map_injective_iff.mpr hinj (Value.map.inj hv)]
        exact ⟨hkeys, hall⟩
    | _ => cases hv
  · exact fun h => .object h.1 h.2

theorem allFit_eq (h : ∀ v ∈ items, fits v = v.isWritable) :
    allFit items = Value.allWritable items := by
  induction items with
  | nil => rfl
  | cons v items ih =>
      rw [List.forall_mem_cons] at h
      rw [allFit, Value.allWritable, h.1, ih h.2]

theorem entriesFit_eq (h : ∀ f ∈ fields, fits f.2 = f.2.isWritable) :
    entriesFit (fields.map entry) = Value.entriesWritable (fields.map entry) := by
  induction fields with
  | nil => rfl
  | cons f fields ih =>
      rw [List.forall_mem_cons] at h
      rw [List.map_cons, entry, entriesFit, Value.entriesWritable, h.1, ih h.2]
      rfl

/-- The integers in a JSON value are short enough to be read if they are short enough to be
written. -/
theorem IsJson.fits_eq (h : IsJson v) : fits v = v.isWritable := by
  induction h with
  | list _ ih => exact allFit_eq ih
  | object _ _ ih => exact entriesFit_eq ih
  | _ => rfl

/-- The JSON text of a value. There is none if an integer has too many digits to be written. -/
def dumped? (ascii : Bool) (v : Value) : Option String :=
  if v.isWritable then write? (layout ascii) v else none

/-- A JSON text is read as the value of which it is the text. -/
theorem IsJson.read_dumped {ascii : Bool} {text : String} (h : IsJson v)
    (ht : dumped? ascii v = some text) :
    write? (layout ascii) v = some text ∧ Json.read text = .ok v := by
  obtain ⟨s, hs, hread⟩ := h.read ascii
  rw [dumped?, Option.ite_none_right_eq_some] at ht
  obtain ⟨hw, ht⟩ := ht
  rw [hs] at ht
  cases ht
  rw [h.fits_eq, if_pos hw] at hread
  exact ⟨hs, hread⟩

theorem IsJson.isSome_dumped? (h : IsJson v) (ascii : Bool) :
    (dumped? ascii v).isSome = v.isWritable := by
  obtain ⟨s, hs, -⟩ := h.read ascii
  rw [dumped?, hs]
  cases v.isWritable <;> rfl

end Json

namespace RuleConfig

variable {rule text padded : String} {extra : List (String × Value)} {ascii : Bool}
  {run description : Value} {runs : List Value}

/-- The object of a rule and the entries beside it. -/
def ruleObject (rule : String) (extra : List (String × Value)) : Value :=
  .object ((marker, .text rule) :: extra)

/-- JSON white space around a text. -/
def Padded (text padded : String) : Prop :=
  ∃ front back, (∀ c ∈ front, Json.isSpace c = true) ∧ (∀ c ∈ back, Json.isSpace c = true) ∧
    padded.toList = front ++ text.toList ++ back

/-- The text of a run mentions the key. -/
def Mentions (run : Value) : Prop :=
  ∃ s, run.get? "text" = some (.text s) ∧ Text.occursIn marker s = true

/-- A run that says it is one of text. -/
def IsText (run : Value) : Prop :=
  run.get? "type" = some (.text "text")

/-- The places for the text of a rule in a description. -/
inductive Carries : Value → String → Prop
  /-- The description is the text. -/
  | plain (s : String) : Carries (.text s) s
  /-- The description is a list of runs, of which those before the text do not mention the key. -/
  | run {before after : List Value} {run : Value} {s : String}
      (first : ∀ r ∈ before, ¬ Mentions r) (here : run.get? "text" = some (.text s)) :
      Carries (.list (before ++ run :: after)) s
  /-- The description has such a list as its content, where only runs of text count. -/
  | content {entries : List (Value × Value)} {before after : List Value} {run : Value} {s : String}
      (list : Value.lookup entries "content" = some (.list (before ++ run :: after)))
      (first : ∀ r ∈ before, IsText r → ¬ Mentions r) (kind : IsText run)
      (here : run.get? "text" = some (.text s)) : Carries (.map entries) s
  /-- The description has no such list and has the text as an entry. -/
  | entry {entries : List (Value × Value)} {s : String}
      (noList : ∀ runs, Value.lookup entries "content" ≠ some (.list runs))
      (here : Value.lookup entries "text" = some (.text s)) : Carries (.map entries) s

/-! ### The search for the text -/

theorem runText?_of_not (h : ¬ Mentions run) : runText? run = none := by
  rw [runText?, Value.get]
  cases hs : run.get? "text" with
  | none => rfl
  | some v =>
      cases v with
      | text s => exact if_neg fun hm => h ⟨s, hs, hm⟩
      | _ => rfl

theorem runText?_eq {s : String} (h : run.get? "text" = some (.text s))
    (hm : Text.occursIn marker s = true) : runText? run = some s := by
  rw [runText?, Value.get, h]
  exact if_pos hm

theorem typedRunText?_of_not (h : IsText run → ¬ Mentions run) : typedRunText? run = none := by
  rw [typedRunText?]
  split
  next hk =>
    refine runText?_of_not (h ?_)
    rw [Value.get] at hk
    cases ht : run.get? "type" with
    | none => rw [ht] at hk; cases hk
    | some v => rw [ht] at hk; cases hk; exact ht
  next => rfl

theorem typedRunText?_eq {s : String} (hk : IsText run) (h : run.get? "text" = some (.text s))
    (hm : Text.occursIn marker s = true) : typedRunText? run = some s := by
  rw [typedRunText?, Value.get, hk]
  exact runText?_eq h hm

theorem findSome?_first {α β : Type} {f : α → Option β} {before after : List α} {a : α} {b : β}
    (hb : ∀ x ∈ before, f x = none) (ha : f a = some b) :
    (before ++ a :: after).findSome? f = some b := by
  rw [List.findSome?_append, List.findSome?_eq_none_iff.mpr hb, Option.none_or,
    List.findSome?_cons_of_isSome (by rw [ha]; rfl), ha]

/-- A text that mentions the key is found in its place. -/
theorem Carries.carrier? {s : String} (h : Carries description s)
    (hm : Text.occursIn marker s = true) : carrier? description = some s := by
  cases h with
  | plain => exact if_pos hm
  | run first here =>
      exact findSome?_first (fun r hr => runText?_of_not (first r hr)) (runText?_eq here hm)
  | content list first kind here =>
      rw [RuleConfig.carrier?, list]
      exact findSome?_first (fun r hr => typedRunText?_of_not (first r hr))
        (typedRunText?_eq kind here hm)
  | entry noList here =>
      rw [RuleConfig.carrier?]
      split
      next runs hruns => exact absurd hruns (noList runs)
      next => exact runText?_eq here hm

/-! ### The text of a rule -/

/-- The text of a rule has braces at its ends and mentions the key between them. -/
theorem ruleObject_text (h : Json.write? (Json.layout ascii) (ruleObject rule extra) = some text) :
    Text.Trimmed text.toList ∧ marker.toList <:+: text.toList := by
  obtain ⟨rest, htext⟩ := Json.write?_fields h
  have hname : (Json.string ascii marker).toList = '"' :: (marker.toList ++ ['"']) := by
    cases ascii <;> decide
  rw [htext]
  refine ⟨⟨?_, ?_⟩, '\x7b' :: ['"'], '"' :: (rest ++ ['\x7d']), ?_⟩
  · rintro _ ⟨⟩
    decide
  · rw [List.getLast?_concat]
    rintro _ ⟨⟩
    decide
  · rw [hname]
    simp

theorem isSpace_isBlank {c : Char} (h : Json.isSpace c = true) : Text.isBlank c = true := by
  simp only [Json.isSpace, Bool.or_eq_true, beq_iff_eq] at h
  obtain ((rfl | rfl) | rfl) | rfl := h <;> decide

/-- White space around a text that has none at its ends is trimmed away. -/
theorem Padded.trim (h : Padded text padded) (ht : Text.Trimmed text.toList) :
    Text.trim padded = text := by
  obtain ⟨front, back, hf, hb, hpadded⟩ := h
  rw [Text.trim, hpadded, ht.trimChars_around (fun c hc => isSpace_isBlank (hf c hc))
    (fun c hc => isSpace_isBlank (hb c hc)), String.ofList_toList]

theorem Padded.mentions (h : Padded text padded) (ht : marker.toList <:+: text.toList) :
    Text.occursIn marker padded = true := by
  obtain ⟨front, back, -, -, hpadded⟩ := h
  rw [Text.occursIn, Text.containsRun_iff, hpadded]
  exact ht.trans ⟨front, back, rfl⟩

/-- The object of a rule that is not blank is taken for the rule and the entries beside it. -/
theorem ofValue_ruleObject (hrule : Text.isBlankText rule = false)
    (hkey : marker ∉ extra.map Prod.fst) :
    ofValue (ruleObject rule extra) = .found rule (extra.map Json.entry) := by
  have hkept : ∀ e ∈ extra.map Json.entry, (e.1.text? != some marker) = true := by
    intro e he
    obtain ⟨f, hf, rfl⟩ := List.mem_map.mp he
    have hne : f.1 ≠ marker := fun heq => hkey (heq ▸ List.mem_map_of_mem hf)
    simp [Json.entry, Value.text?, hne]
  have hlookup : Value.lookup ((marker, Value.text rule) :: extra |>.map Json.entry) marker =
      some (.text rule) := by
    simp [Value.lookup, Json.entry]
  change ofValue (.map (((marker, Value.text rule) :: extra).map Json.entry)) = _
  rw [ofValue, hlookup]
  simp only [hrule, Bool.false_eq_true, if_false]
  rw [List.map_cons, List.filter_cons_of_neg (by simp [Json.entry, Value.text?]),
    List.filter_eq_self.mpr hkept]

/-- A rule that is not blank and JSON entries beside it, none of them under the rule's key, have a
JSON text together if the integers in the entries have one. From every place in a description and
with white space around it, this text is taken for the same rule and the same entries. -/
theorem embedded_rule_found (hrule : ∃ c ∈ rule.toList, Text.isBlank c = false)
    (hextra : Json.IsJson (.object extra)) (hkey : marker ∉ extra.map Prod.fst) (ascii : Bool) :
    (Json.dumped? ascii (ruleObject rule extra)).isSome = (Value.object extra).isWritable ∧
    ∀ text padded description, Json.dumped? ascii (ruleObject rule extra) = some text →
      Padded text padded → Carries description padded →
        ofDescription description = .ok (.found rule (extra.map Json.entry)) := by
  obtain ⟨hkeys, hall⟩ := Json.isJson_object_iff.mp hextra
  have hjson : Json.IsJson (ruleObject rule extra) :=
    .object (List.nodup_cons.mpr ⟨hkey, hkeys⟩) (List.forall_mem_cons.mpr ⟨.text rule, hall⟩)
  constructor
  · rw [hjson.isSome_dumped?]
    rfl
  · intro text padded description htext hpadded hcarries
    obtain ⟨hwrite, hread⟩ := hjson.read_dumped htext
    obtain ⟨htrimmed, hmarker⟩ := ruleObject_text hwrite
    rw [ofDescription, hcarries.carrier? (hpadded.mentions hmarker)]
    simp only [hpadded.trim htrimmed, hread]
    rw [ofValue_ruleObject (Text.isBlankText_eq_false hrule) hkey]

/-- A mention and a note, of which the note does not mention the key of rules. -/
def notes : List Value :=
  [.object [("type", .text "mention"), ("text", .text "validator")],
    .object [("type", .text "text"), ("text", .text "a note")]]

/-- The text of a rule with an owner beside it, and white space around. -/
def paddedText : String :=
  " \x7b\"validator\": \"string|exists:true\", \"owner\": \"ops\"\x7d\n"

/-- A description in which the text of a rule stands behind notes. -/
def remarks : Value :=
  .object [("content",
    .list (notes ++ [.object [("type", .text "text"), ("text", .text paddedText)]]))]

theorem remarks_carries : Carries remarks paddedText := by
  refine @Carries.content _ notes [] _ _ rfl ?_ rfl rfl
  intro r hr hkind
  simp only [notes, List.mem_cons, List.not_mem_nil, or_false] at hr
  obtain rfl | rfl := hr
  · exact absurd (Value.text.inj (Option.some.inj hkind)) (by decide)
  · rintro ⟨s, hs, hm⟩
    cases hs
    revert hm
    decide

/-- The rule behind the notes is found with its owner. -/
theorem remarks_rule_found :
    (∃ c ∈ "string|exists:true".toList, Text.isBlank c = false) ∧
    Json.IsJson (.object [("owner", .text "ops")]) ∧
    marker ∉ [("owner", Value.text "ops")].map Prod.fst ∧
    ofDescription remarks = .ok (.found "string|exists:true" [(.text "owner", .text "ops")]) := by
  have hrule : ∃ c ∈ "string|exists:true".toList, Text.isBlank c = false :=
    ⟨'s', by decide, by decide⟩
  have hextra : Json.IsJson (.object [("owner", .text "ops")]) :=
    .object (by decide) (by simpa using Json.IsJson.text "ops")
  have hkey : marker ∉ [("owner", Value.text "ops")].map Prod.fst := by decide
  exact ⟨hrule, hextra, hkey, (embedded_rule_found hrule hextra hkey true).2 _ _ _ rfl
    ⟨[' '], ['\n'], List.all_eq_true.mp rfl, List.all_eq_true.mp rfl, rfl⟩ remarks_carries⟩

end RuleConfig

end TableAudit
