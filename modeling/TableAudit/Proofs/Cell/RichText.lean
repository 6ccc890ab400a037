import Mathlib.Data.List.Forall2
import TableAudit.Proofs.Cell.Texts

/-!
# Rich text

A list of text runs is read as their texts put together, unless the keys that the first run has
beside its text make it look like a link, a file, a person or a chat group. All runs are taken for
the same then, and none of their texts is read, so no other texts are read right in their place.
-/

namespace TableAudit.Cell

variable {t : ColumnType} {hint run run' first : Value} {rest runs runs' : List Value}
  {s : String} {texts texts' : List String}

/-- A mapping with a text for its type and the given text for its content. -/
structure IsRun (run : Value) (s : String) : Prop where
  kind : ∃ k, run.get? "type" = some (.text k)
  content : run.get? "text" = some (.text s)

/-- What a run is taken for because of the keys beside its text. -/
inductive Guise
  | link
  | file
  | person
  | chatGroup
deriving DecidableEq, Repr

/-- The guise of a mapping. Keys of a link come before those of a file, a person and a group. -/
def guise? (item : Value) : Option Guise :=
  if item.has "record_ids" || item.has "text_arr" then some .link
  else if looksLikeAttachment item then some .file
  else if looksLikePerson item then some .person
  else if looksLikeChatGroup item then some .chatGroup
  else none

/-- The cell of items under a guise. -/
def Guise.cell : Guise → List Value → Cell
  | link, _ => .unsupported .link
  | file, items => .attachments (items.map attachment)
  | person, items => .users (items.map Cell.person)
  | chatGroup, items => .groupChats (items.map Cell.chatGroup)

theorem ofMaps_guise {g : Guise} (h : guise? first = some g) (items : List Value) :
    ofMaps first items = g.cell items := by
  unfold guise? at h
  unfold ofMaps
  split_ifs at h ⊢ <;> cases h <;> rfl

theorem IsRun.has (h : IsRun run s) : run.has "type" = true ∧ run.has "text" = true := by
  obtain ⟨k, hk⟩ := h.kind
  rw [Value.has, Value.has, hk, h.content]
  exact ⟨rfl, rfl⟩

theorem ofMaps_plain (h : guise? first = none) (hrun : IsRun first s) (items : List Value) :
    ofMaps first items = .segments (items.map segment) := by
  unfold guise? at h
  split_ifs at h with hlink hfile hperson hgroup
  rw [ofMaps, if_neg hlink, if_neg hfile, if_neg hperson, if_neg hgroup, hrun.has.1, hrun.has.2,
    Bool.and_self, if_pos rfl]

/-! ### Lists of runs -/

theorem IsRun.isMap (h : IsRun run s) : run.isMap = true ∧ run.isText = false := by
  cases run with
  | map entries => exact ⟨rfl, rfl⟩
  | _ => cases h.content

theorem isMap_of_runs (h : List.Forall₂ IsRun runs texts) : runs.all Value.isMap = true := by
  induction h with
  | nil => rfl
  | cons hrun _ ih => rw [List.all_cons, hrun.isMap.1, ih]; rfl

/-- In a column of texts and without a type, the keys of the first run tell what runs are. -/
theorem ofPayload_runs (ht : t = .text ∨ t = .unknown)
    (h : List.Forall₂ IsRun (first :: rest) texts) :
    ofPayload t (.list (first :: rest)) = ofMaps first (first :: rest) := by
  have hmaps := isMap_of_runs h
  have hnot : (first :: rest).all Value.isText = false := by
    cases h with
    | cons hrun _ => rw [List.all_cons, hrun.isMap.2]; rfl
  obtain rfl | rfl := ht <;>
    · simp only [ofPayload, unsupportedType?, ofItems, hmaps, hnot]
      rfl

theorem firstOf_text (s otherwise : String) :
    firstOf [.text s] otherwise = .text (if s.isEmpty then otherwise else s) := by
  rw [firstOf, List.find?_singleton, Value.isTruthy]
  cases s.isEmpty <;> rfl

/-- What is kept of a run are texts, the one of its content among them. -/
theorem segment_eq (h : IsRun run s) : ∃ kind, segment run = ⟨.text s, .text kind⟩ := by
  obtain ⟨k, hk⟩ := h.kind
  have hcontent : (if s.isEmpty then "" else s) = s := by
    split
    next hs => exact (String.isEmpty_iff.mp hs).symm
    next => rfl
  refine ⟨if k.isEmpty then "text" else k, ?_⟩
  rw [segment, Value.get, Value.get, h.content, hk, Option.getD_some, Option.getD_some,
    firstOf_text, firstOf_text, hcontent]

theorem text_segments (h : List.Forall₂ IsRun runs texts) :
    (runs.map segment).map (·.text) = texts := by
  induction h with
  | nil => rfl
  | cons hrun _ ih =>
      obtain ⟨kind, hkind⟩ := segment_eq hrun
      rw [List.map_cons, List.map_cons, ih, hkind]
      rfl

theorem isWritable_segments (h : List.Forall₂ IsRun runs texts) :
    isWritable (.segments (runs.map segment)) = true := by
  rw [isWritable, sources]
  induction h with
  | nil => rfl
  | cons hrun _ ih =>
      obtain ⟨kind, hkind⟩ := segment_eq hrun
      rw [List.map_cons, List.flatMap_cons, List.all_append, ih, hkind]
      rfl

theorem written_segments (h : List.Forall₂ IsRun runs texts) :
    written (.segments (runs.map segment)) = .ok (String.join texts) := by
  rw [written, if_pos (isWritable_segments h), normal, text_segments h]

/-- What is written for runs in a column of texts or without a type. -/
theorem hintedText_runs (hhint : hintedType hint = .ok t) (ht : t = .text ∨ t = .unknown)
    (h : List.Forall₂ IsRun (first :: rest) texts) :
    hintedText hint (.list (first :: rest)) =
      match guise? first with
      | none => .ok (String.join texts)
      | some g => (g.cell (first :: rest)).written := by
  rw [hintedText, hhint, ok_bind, writtenText, ofPayload_runs ht h]
  cases hg : guise? first with
  | some g => rw [ofMaps_guise hg]
  | none =>
      cases h with
      | cons hrun hall => rw [ofMaps_plain hg hrun, written_segments (.cons hrun hall)]

/-! ### Runs with other texts -/

/-- The same run with another text. -/
def Retold (run run' : Value) : Prop :=
  ∀ key, key ≠ "text" → run'.get? key = run.get? key

/-- Give a run another text. -/
def retell (s : String) : Value → Value
  | .map entries =>
    .map (entries.map fun e => (e.1, if e.1.text? = some "text" then .text s else e.2))
  | v => v

theorem lookup_retold (s key : String) (entries : List (Value × Value)) :
    Value.lookup
        (entries.map fun e => (e.1, if e.1.text? = some "text" then .text s else e.2)) key =
      if key = "text" then (Value.lookup entries key).map fun _ => .text s
      else Value.lookup entries key := by
  simp only [Value.lookup]
  induction entries with
  | nil => simp
  | cons e entries ih =>
      obtain ⟨k, v⟩ := e
      rw [List.map_cons, List.findSome?_cons, List.findSome?_cons, ih]
      cases k with
      | text k =>
          by_cases hk : k = key
          · subst hk
            by_cases htext : k = "text" <;> simp [Value.text?, htext]
          · simp [hk]
      | _ => rfl

theorem get?_retell (s key : String) (run : Value) : (retell s run).get? key =
    if key = "text" then (run.get? key).map fun _ => .text s else run.get? key := by
  cases run with
  | map entries => exact lookup_retold s key entries
  | _ => exact (ite_self _).symm

theorem retold_retell (s : String) (run : Value) : Retold run (retell s run) := by
  intro key hkey
  rw [get?_retell, if_neg hkey]

theorem isRun_retell (h : IsRun run s) (s' : String) : IsRun (retell s' run) s' := by
  constructor
  · rw [get?_retell, if_neg (by decide)]
    exact h.kind
  · rw [get?_retell, if_pos rfl, h.content]
    rfl

theorem Retold.has (h : Retold run run') (key : String) (hkey : key ≠ "text") :
    run'.has key = run.has key := by
  rw [Value.has, Value.has, h key hkey]

theorem Retold.get (h : Retold run run') (key : String) (hkey : key ≠ "text") :
    run'.get key = run.get key := by
  rw [Value.get, Value.get, h key hkey]

theorem Retold.guise? (h : Retold run run') : Cell.guise? run' = Cell.guise? run := by
  unfold Cell.guise? looksLikeAttachment looksLikeChatGroup looksLikePerson
  rw [h.has "record_ids" (by decide), h.has "text_arr" (by decide),
    h.has "file_token" (by decide), h.has "token" (by decide), h.has "name" (by decide),
    h.has "email" (by decide), h.has "en_name" (by decide), h.has "enName" (by decide),
    h.has "id" (by decide), h.has "avatar_url" (by decide), h.has "avatarUrl" (by decide)]

theorem map_retold {α : Type} {f : Value → α} (h : List.Forall₂ Retold runs runs')
    (hf : ∀ {run run'}, Retold run run' → f run' = f run) : runs'.map f = runs.map f := by
  induction h with
  | nil => rfl
  | cons hrun _ ih => rw [List.map_cons, List.map_cons, hf hrun, ih]

/-- Under a guise the texts play no part. -/
theorem cell_retold (h : List.Forall₂ Retold runs runs') (g : Guise) :
    g.cell runs' = g.cell runs := by
  cases g with
  | link => rfl
  | file =>
      refine congrArg attachments (map_retold h fun hrun => ?_)
      rw [attachment, attachment, hrun.get _ (by decide), hrun.get _ (by decide),
        hrun.get _ (by decide)]
  | person =>
      refine congrArg users (map_retold h fun hrun => ?_)
      rw [person, person, hrun.get _ (by decide), hrun.get _ (by decide)]
  | chatGroup =>
      refine congrArg groupChats (map_retold h fun hrun => ?_)
      rw [chatGroup, chatGroup, hrun.get _ (by decide), hrun.get _ (by decide)]

/-- A longer text of the first run is not what is written for it. -/
theorem exists_join_ne (s : String) (texts : List String) :
    ∃ s', String.join (s' :: texts) ≠ s := by
  refine ⟨s ++ "a", fun h => ?_⟩
  have hlength := congrArg String.length h
  rw [String.join_cons, String.length_append, String.length_append] at hlength
  have : "a".length = 1 := by decide
  omega

/-- A list of runs, in a column of texts or without a type, is read as their texts put together
just if the first run has no guise, or what is written for its guise is the same by chance. With
the keys that the runs have beside their texts, all texts are read right just if it has none. -/
theorem rich_text_read_iff (hhint : hintedType hint = .ok t) (ht : t = .text ∨ t = .unknown)
    (h : List.Forall₂ IsRun (first :: rest) texts) :
    (hintedText hint (.list (first :: rest)) = .ok (String.join texts) ↔
      guise? first = none ∨ ∃ g, guise? first = some g ∧
        (g.cell (first :: rest)).written = .ok (String.join texts)) ∧
    ((∀ runs texts, List.Forall₂ Retold (first :: rest) runs → List.Forall₂ IsRun runs texts →
      hintedText hint (.list runs) = .ok (String.join texts)) ↔ guise? first = none) := by
  refine ⟨?_, ?_, ?_⟩
  · rw [hintedText_runs hhint ht h]
    cases guise? first <;> simp
  · intro hall
    cases hg : guise? first with
    | none => rfl
    | some g =>
        -- what is written for the guise stays when the first run is given a longer text
        exfalso
        cases h with
        | @cons _ s _ texts hrun hrest =>
            have hsame : List.Forall₂ Retold rest rest :=
              List.forall₂_same.mpr fun run _ key _ => rfl
            have hread := hall _ _ (.cons (retold_retell "" first) hsame)
              (.cons (isRun_retell hrun "") hrest)
            obtain ⟨s', hs'⟩ := exists_join_ne (String.join ("" :: texts)) texts
            have hread' := hall _ _ (.cons (retold_retell s' first) hsame)
              (.cons (isRun_retell hrun s') hrest)
            rw [hintedText_runs hhint ht (.cons (isRun_retell hrun _) hrest),
              (retold_retell _ first).guise?, hg] at hread hread'
            simp only [cell_retold (.cons (retold_retell _ first) hsame) g] at hread hread'
            exact hs' (Except.ok.inj (hread'.symm.trans hread))
  · rintro hg runs texts hretold hruns
    cases hretold with
    | cons hfirst _ => rw [hintedText_runs hhint ht hruns, hfirst.guise?, hg]

/-- A mention of a person, which has the keys of a file. -/
def mention : Value :=
  .object [("type", .text "mention"), ("text", .text "@Ann"), ("mentionType", .text "User"),
    ("token", .text "ou_1"), ("name", .text "Ann")]

theorem isRun_mention : IsRun mention "@Ann" :=
  ⟨⟨"mention", rfl⟩, rfl⟩

/-- A run without other keys. -/
def greeting : Value :=
  .object [("type", .text "text"), ("text", .text "Hi ")]

theorem isRun_greeting : IsRun greeting "Hi " :=
  ⟨⟨"text", rfl⟩, rfl⟩

/-- Behind a run without other keys a mention is read right. -/
theorem greeting_read :
    hintedType (.int 1) = .ok .text ∧ List.Forall₂ IsRun [greeting, mention] ["Hi ", "@Ann"] ∧
      hintedText (.int 1) (.list [greeting, mention]) = .ok (String.join ["Hi ", "@Ann"]) := by
  have hruns : List.Forall₂ IsRun [greeting, mention] ["Hi ", "@Ann"] :=
    .cons isRun_greeting (.cons isRun_mention .nil)
  exact ⟨rfl, hruns, (rich_text_read_iff rfl (Or.inl rfl) hruns).1.mpr (Or.inl rfl)⟩

/-- A mention alone is taken for a file, in a column of texts as without a type. -/
theorem mention_misread :
    List.Forall₂ IsRun [mention] ["@Ann"] ∧
      hintedText (.int 1) (.list [mention]) ≠ .ok (String.join ["@Ann"]) ∧
      hintedText .null (.list [mention]) ≠ .ok (String.join ["@Ann"]) :=
  ⟨.cons isRun_mention .nil, by decide, by decide⟩

end TableAudit.Cell
