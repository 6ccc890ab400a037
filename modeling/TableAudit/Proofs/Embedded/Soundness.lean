import TableAudit.Embedded.Trial
import TableAudit.Proofs.Cell.Writable
import TableAudit.Proofs.Source.Loops

/-!
# Sound answers of embedded tables

Whatever a call of a bridge comes to, a question to a table of a host has an answer of the declared
type or a failure with a message, provided that what the call returns has the expected shape.
-/

namespace TableAudit.Embedded

variable {v x : Value} {key : String}

/-! ### Shapes of payloads -/

/-- A part can be written if it is there. -/
def PartWrites (v : Value) (key : String) : Prop :=
  ∀ p, part? v key = some p → p.isWritable = true

/-- A column has an identifier and a name that can be written, and a type code that is not infinite.
Its properties are a mapping from texts, if they are anything. -/
structure ColumnFits (v : Value) : Prop where
  id : PartWrites v "id"
  name : PartWrites v "name"
  type : ∀ negative, part v "type" ≠ .float (.infinity negative)
  property : (part v "property").isTruthy = true → (part v "property").IsObject

/-- Cells are a mapping from texts or made of pairs of a text and a value. -/
def CellsFit (v : Value) : Prop :=
  v.IsObject ∨ v.isMap = false ∧
    ∃ pairs, items v = .ok pairs ∧ ∀ pair ∈ pairs, ∃ s w, items pair = .ok [.text s, w]

/-- A record has identifiers that can be written, and its cells fit if they are anything. The time
of its last change is finite if it is a number. -/
structure RecordFits (v : Value) : Prop where
  id : PartWrites v "recordId"
  fields : (part v "fields").isTruthy = true → CellsFit (part v "fields")
  editor : (part (part v "lastModifiedBy") "id").isTruthy = true →
    (part (part v "lastModifiedBy") "id").isWritable = true
  time : part v "lastModifiedTime" ≠ .float .nan ∧
    ∀ negative, part v "lastModifiedTime" ≠ .float (.infinity negative)

/-- A value is made of others, if it is anything, and these fit. -/
def ItemsFit (Fits : Value → Prop) (v : Value) : Prop :=
  v.isTruthy = true → ∃ vs, items v = .ok vs ∧ ∀ x ∈ vs, Fits x

/-- What a call returns for a question has the expected shape. -/
def ValueFits : TableCall → Value → Prop
  | .fields, v => ItemsFit ColumnFits v
  | .records _ _, v => ItemsFit RecordFits (part v "records") ∧ (part v "pageToken").IsOptionalText
  | .visibleIds _, v =>
    ∃ vs, items v = .ok vs ∧ ∀ x ∈ vs, x.isTruthy = true → x.isWritable = true
  | _, _ => True

/-! ### Columns -/

theorem written_ok_iff : (∃ s, v.written = .ok s) ↔ v.isWritable = true := by
  rw [Value.written]
  split <;> simp [*]

theorem partText_ok_iff : (∃ s, partText v key = .ok s) ↔ PartWrites v key := by
  rw [partText, PartWrites]
  cases part? v key with
  | none => simp
  | some p => simp [written_ok_iff]

theorem columnOf_typed_iff : (∃ c, columnOf v = .ok c ∧ c.IsTyped) ↔ ColumnFits v := by
  constructor
  · rintro ⟨c, hc, htyped⟩
    obtain ⟨id, hid, hc⟩ := bind_ok_iff.mp hc
    obtain ⟨name, hname, hc⟩ := bind_ok_iff.mp hc
    obtain ⟨t, ht, hc⟩ := bind_ok_iff.mp hc
    obtain rfl := Except.ok.inj hc
    exact ⟨partText_ok_iff.mp ⟨id, hid⟩, partText_ok_iff.mp ⟨name, hname⟩,
      ColumnType.ofCode_ok_iff.mp ⟨t, ht⟩, Value.isObject_orEmpty.mp htyped⟩
  · intro h
    obtain ⟨id, hid⟩ := partText_ok_iff.mpr h.id
    obtain ⟨name, hname⟩ := partText_ok_iff.mpr h.name
    obtain ⟨t, ht⟩ := ColumnType.ofCode_ok_iff.mpr h.type
    refine ⟨⟨id, name, t, part v "description", orElse (part v "property") (.map [])⟩, ?_, ?_⟩
    · rw [columnOf, hid, hname, ht]
      rfl
    · exact Value.isObject_orEmpty.mpr h.property

/-! ### Records -/

theorem pairOf_text_iff :
    (∃ p, pairOf v = .ok p ∧ ∃ s, p.1 = .text s) ↔ ∃ s w, items v = .ok [.text s, w] := by
  rw [pairOf]
  constructor
  · rintro ⟨p, hp, s, hs⟩
    obtain ⟨vs, hvs, hp⟩ := bind_ok_iff.mp hp
    split at hp
    · split at hp
      · obtain rfl := Except.ok.inj hp
        obtain rfl := hs
        exact ⟨s, _, hvs⟩
      · cases hp
    · cases hp
  · rintro ⟨s, w, hvs⟩
    exact ⟨(.text s, w), by rw [hvs]; rfl, s, rfl⟩

/-- Pairs make up a mapping from texts if the first of each is a text. -/
theorem pairsOf_typed_iff :
    (∃ cells, (do
        let pairs ← (← items v).mapM pairOf
        .ok (Value.ofPairs pairs)) = (.ok cells : Except Fault (List (Value × Value))) ∧
          ∀ e ∈ cells, ∃ s, e.1 = Value.text s) ↔
      ∃ pairs, items v = .ok pairs ∧ ∀ pair ∈ pairs, ∃ s w, items pair = .ok [.text s, w] := by
  cases items v with
  | error f => simp [bind, Except.bind]
  | ok vs =>
      simp only [ok_bind, Except.ok.injEq, exists_eq_left', ← pairOf_text_iff]
      rw [← exists_mapM_iff]
      constructor
      · rintro ⟨cells, h, hkeys⟩
        obtain ⟨pairs, hpairs, h⟩ := bind_ok_iff.mp h
        obtain rfl := Except.ok.inj h
        exact ⟨pairs, hpairs, Value.keys_ofPairs.mp hkeys⟩
      · rintro ⟨pairs, hpairs, hkeys⟩
        exact ⟨Value.ofPairs pairs, by rw [hpairs]; rfl, Value.keys_ofPairs.mpr hkeys⟩

theorem entriesOf_typed_iff :
    (∃ cells, entriesOf v = .ok cells ∧ ∀ e ∈ cells, ∃ s, e.1 = Value.text s) ↔
      (v.isTruthy = true → CellsFit v) := by
  by_cases htrue : v.isTruthy = true
  · rw [entriesOf.eq_def, if_pos htrue, forall_prop_of_true htrue, CellsFit]
    cases v with
    | map entries => simp [Value.IsObject, Value.isMap]
    | _ =>
        simp only [Value.IsObject, Value.isMap, reduceCtorEq, false_and, exists_false, false_or,
          true_and]
        exact pairsOf_typed_iff
  · rw [entriesOf.eq_def, if_neg htrue]
    exact iff_of_true ⟨[], rfl, List.forall_mem_nil _⟩ fun h => absurd h htrue

theorem changeTime_ok_iff :
    (∃ t, changeTime v = .ok t ∧ ∀ n, t = some n → ∃ k, n = Number.int k) ↔
      v ≠ .float .nan ∧ ∀ negative, v ≠ .float (.infinity negative) := by
  cases v with
  | float x =>
      cases x with
      | nan => simp [changeTime]
      | infinity negative => simp [changeTime, Number.Binary64.truncate?]
      | finite s m e => simp [changeTime, Number.Binary64.truncate?]
  | _ => simp [changeTime]

theorem personId_ok_iff : (∃ id, personId v = .ok id) ↔
    ((part v "id").isTruthy = true → (part v "id").isWritable = true) := by
  rw [personId]
  split
  · rename_i h
    rw [← written_ok_iff, forall_prop_of_true h]
    cases (part v "id").written <;> simp [Except.map]
  · rename_i h
    simp [h]

theorem recordOf_typed_iff : (∃ r, recordOf v = .ok r ∧ r.IsTyped) ↔ RecordFits v := by
  constructor
  · rintro ⟨r, hr, htyped⟩
    obtain ⟨id, hid, hr⟩ := bind_ok_iff.mp hr
    obtain ⟨cells, hcells, hr⟩ := bind_ok_iff.mp hr
    obtain ⟨editor, heditor, hr⟩ := bind_ok_iff.mp hr
    obtain ⟨time, htime, hr⟩ := bind_ok_iff.mp hr
    obtain rfl := Except.ok.inj hr
    exact ⟨partText_ok_iff.mp ⟨id, hid⟩, entriesOf_typed_iff.mp ⟨cells, hcells, htyped.fields⟩,
      personId_ok_iff.mp ⟨editor, heditor⟩, changeTime_ok_iff.mp ⟨time, htime, htyped.time⟩⟩
  · intro h
    obtain ⟨id, hid⟩ := partText_ok_iff.mpr h.id
    obtain ⟨cells, hcells, hkeys⟩ := entriesOf_typed_iff.mpr h.fields
    obtain ⟨editor, heditor⟩ := personId_ok_iff.mpr h.editor
    obtain ⟨time, htime, hint⟩ := changeTime_ok_iff.mpr h.time
    refine ⟨⟨id, cells, editor, time⟩, ?_, hkeys, hint⟩
    rw [recordOf, hid, hcells, heditor, htime]
    rfl

/-! ### Questions -/

theorem itemsOrNone_iff {α : Type} {f : Value → Except Fault α} {P : α → Prop} :
    (∃ found, (do (← itemsOrNone v).mapM f) = .ok found ∧ ∀ a ∈ found, P a) ↔
      ItemsFit (fun x => ∃ a, f x = .ok a ∧ P a) v := by
  rw [itemsOrNone, ItemsFit]
  split
  · rename_i h
    rw [forall_prop_of_true h]
    cases items v with
    | error g => simp [bind, Except.bind]
    | ok vs =>
        simp only [ok_bind, Except.ok.injEq, exists_eq_left']
        exact exists_mapM_iff
  · rename_i h
    exact iff_of_true ⟨[], rfl, List.forall_mem_nil _⟩ fun ht => absurd ht h

theorem ItemsFit.congr {F G : Value → Prop} (h : ∀ x, F x ↔ G x) : ItemsFit F v ↔ ItemsFit G v := by
  rw [funext fun x => propext (h x)]

theorem visibleOf_ok_iff : (∃ ids, visibleOf v = .ok ids) ↔
    ∃ vs, items v = .ok vs ∧ ∀ x ∈ vs, x.isTruthy = true → x.isWritable = true := by
  rw [visibleOf]
  cases items v with
  | error f => simp [bind, Except.bind]
  | ok vs =>
      have hall : (∃ ids, (vs.filter Value.isTruthy).mapM Value.written = .ok ids ∧
          ∀ id ∈ ids, (fun _ => True) id) ↔ _ := exists_mapM_iff
      simpa [ok_bind, written_ok_iff] using hall

/-- A page fits if its records do and its token is a text, if it is anything. -/
theorem pageOf_typed_iff :
    (∃ p, pageOf v = .ok p ∧ (∀ r ∈ p.records, r.IsTyped) ∧ p.token.IsOptionalText) ↔
      ItemsFit RecordFits (part v "records") ∧ (part v "pageToken").IsOptionalText := by
  have hpage : pageOf v = (do (← itemsOrNone (part v "records")).mapM recordOf).map fun records =>
      ⟨records, (part v "hasMore").isTruthy, part v "pageToken"⟩ := by
    rw [pageOf, map_bind]
    rfl
  rw [← ItemsFit.congr fun x => recordOf_typed_iff, ← itemsOrNone_iff, hpage]
  constructor
  · rintro ⟨p, hp, htyped, htoken⟩
    obtain ⟨found, hfound, rfl⟩ := map_ok_iff.mp hp
    exact ⟨⟨found, hfound, htyped⟩, htoken⟩
  · rintro ⟨⟨found, hfound, htyped⟩, htoken⟩
    exact ⟨_, map_ok_iff.mpr ⟨found, hfound, rfl⟩, htyped, htoken⟩

/-- A fault is no answer, and a value is one if it is of the declared type. -/
theorem yields_replyOf {α : Type} {f : α → TableReply} {P : TableReply → Prop}
    (hf : ∀ a, (f a).result = .ok (f a)) (y : Except Fault α) :
    Yields P (replyOf f y).result ↔ ∃ a, y = .ok a ∧ P (f a) := by
  cases y with
  | ok a =>
      rw [replyOf, hf, yields_ok_iff]
      simp
  | error e =>
      rw [replyOf, TableReply.result, yields_error_iff]
      simp [not_isSound_fault]

theorem isSound_outcome (method : String) (r : BridgeReply) : IsSound (outcome method r) := by
  cases r with
  | value v => exact isSound_ok v
  | host => exact isSound_ok _
  | failure message => exact isSound_failure message
  | raised message => exact isSound_failure _

/-- What a call returns for a question makes an answer just if it has the expected shape. -/
theorem yields_reply (c : TableCall) (r : BridgeReply) :
    Yields c.Admits (reply c r).result ↔
      ∀ v, outcome (callFor c).method r = .ok v → ValueFits c v := by
  have hsound := isSound_outcome (callFor c).method r
  rw [reply.eq_def]
  cases houtcome : outcome (callFor c).method r with
  | error e =>
      rw [houtcome] at hsound
      refine iff_of_true (yields_error_iff.mpr ((isSound_error_congr e).mp hsound)) ?_
      exact fun v hv => absurd hv.symm (ok_ne_error v e)
  | ok v =>
      simp only [Except.ok.injEq, forall_eq']
      cases c with
      | fields =>
          rw [yields_replyOf fun _ => rfl, ValueFits, ← ItemsFit.congr fun x => columnOf_typed_iff]
          exact itemsOrNone_iff
      | records size token =>
          rw [yields_replyOf fun _ => rfl]
          exact pageOf_typed_iff
      | visibleIds view =>
          rw [yields_replyOf fun _ => rfl, ValueFits, ← visibleOf_ok_iff]
          simp [TableCall.Admits]
      | view id => exact iff_of_true (yields_ok_iff.mpr trivial) trivial
      | cell columnId recordId => exact iff_of_true (yields_ok_iff.mpr trivial) trivial
      | setCell columnId recordId value => exact iff_of_true (yields_ok_iff.mpr trivial) trivial

/-- What has to be there and have the expected shape for a question to a table: something that
answers, and what the call returns. -/
structure Fits (s : Script) (t : TableHandle) (c : TableCall) : Prop where
  answers : t.answers = true
  answered : isAnswered c = true
  value : ∀ v, outcome (callFor c).method (s.reply (callFor c)) = .ok v → ValueFits c v

/-- Whatever a bridge does, a question to a table comes to a value of the declared type or to a
failure with a message, just if what is asked answers and what it returns has the expected shape. -/
theorem ask_yields_iff (s : Script) (t : TableHandle) (c : TableCall) :
    Yields c.Admits (ask s t c).1.result ↔ Fits s t c := by
  rw [ask]
  cases ht : t.answers && isAnswered c with
  | false =>
      refine iff_of_false ?_ fun h => ?_
      · rw [if_neg Bool.false_ne_true]
        exact fun h => not_isSound_fault _ (yields_error_iff.mp h)
      · rw [h.answers, h.answered] at ht
        cases ht
  | true =>
      rw [if_pos rfl, yields_reply]
      rw [Bool.and_eq_true] at ht
      exact ⟨fun h => ⟨ht.1, ht.2, h⟩, fun h => h.value⟩

end TableAudit.Embedded
