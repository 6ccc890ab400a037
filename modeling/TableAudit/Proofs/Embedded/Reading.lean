import TableAudit.Embedded.Scripted
import TableAudit.Proofs.Table.Content

/-!
# Reading a table of a host

A host gives the columns of a table in one list and its records in pages, with cells by the
identifiers of columns. What is read is what the table holds, however the records are cut into
pages.
-/

namespace TableAudit.Embedded

variable {v : Value} {bridge : BridgeCall → BridgeReply} {columns : List Column}
variable {f : Content.Field} {e : Content.Entry} {fields : List Content.Field}

/-- How a host spells columns, records and pages. -/
def spelling : Spelling where
  look := part?
  fieldId := "id"
  fieldName := "name"
  recordId := "recordId"
  editor := "lastModifiedBy"
  time := "lastModifiedTime"
  records := "records"
  more := "hasMore"
  token := "pageToken"
  key := Content.Field.id

/-- The answer of an open table to a question, over a bridge. -/
def answer (bridge : BridgeCall → BridgeReply) (c : TableCall) : TableReply :=
  if isAnswered c then reply c (bridge (callFor c)) else .failed (.fault .noAttribute)

theorem ask_eq (s : Script) {t : TableHandle} (ht : t.answers = true) (c : TableCall) :
    (ask s t c).1 = answer s.reply c := by
  cases hc : isAnswered c <;> simp [ask, answer, ht, hc]

/-- Ask for the columns of a table and read its rows, with a bound on the questions. -/
def readTable (bridge : BridgeCall → BridgeReply) (viewId : Value) (size : Number) (bound : Nat) :
    Except SourceError (List Column × List Row) :=
  match answer bridge .fields with
  | .fields columns =>
    (Reading.against (answer bridge) ⟨columns, viewId, size⟩ bound .start).map (columns, ·)
  | .failed e => .error e
  | _ => .error (.fault .wrongKind)

theorem readFrom_eq (s : Script) {t : TableHandle} (ht : t.answers = true) (q : RowQuery)
    (bound : Nat) (r : Reading) :
    (readFrom s t q bound r).1 = Reading.against (answer s.reply) q bound r := by
  induction bound generalizing r with
  | zero => rfl
  | succ bound ih =>
      rw [readFrom, Reading.against, ← ask_eq s ht]
      simp only
      split <;> simp_all

/-- A script is read as the bridge that follows it. -/
theorem readRows_eq (s : Script) {t : TableHandle} (ht : t.answers = true) (viewId : Value)
    (size : Number) :
    (readRows s t viewId size).1 = (readTable s.reply viewId size s.readBound).map Prod.snd := by
  rw [readRows, readTable, ← ask_eq s ht]
  obtain ⟨reply, calls⟩ := ask s t .fields
  cases reply with
  | fields columns =>
      change (readFrom s t ⟨columns, viewId, size⟩ s.readBound .start).1 = Except.map Prod.snd
        ((Reading.against (answer s.reply) ⟨columns, viewId, size⟩ s.readBound .start).map
          (columns, ·))
      rw [readFrom_eq s ht]
      cases Reading.against (answer s.reply) ⟨columns, viewId, size⟩ s.readBound .start <;> rfl
  | _ => rfl

/-! ### Columns and records -/

theorem partText_eq {name text : String} (h : part? v name = some (.text text)) :
    partText v name = .ok text := by
  rw [partText, h]
  rfl

theorem columnOf_spelled (h : f.SpelledBy spelling v) : columnOf v = f.column := by
  have htype : part v "type" = f.type := h.type
  have hdescription : part v "description" = f.description := h.description
  have hproperty : part v "property" = f.property := h.property
  have hid : partText v "id" = .ok f.id := partText_eq h.id
  have hname : partText v "name" = .ok f.name := partText_eq h.name
  rw [columnOf, Content.Field.column, htype, hdescription, hproperty, hid, hname, ok_bind, ok_bind]
  cases ColumnType.ofCode f.type <;> rfl

theorem entriesOf_object (held : List (String × Value)) :
    entriesOf (.object held) = .ok (held.map fun x => (.text x.1, x.2)) := by
  cases held <;> rfl

theorem changeTime_spelled (e : Content.Entry) : changeTime (changeValue e.time) = e.changed := by
  rw [Content.Entry.changed]
  cases e.time with
  | none => rfl
  | some n =>
      cases n with
      | int n => rfl
      | float x =>
          cases x with
          | nan => rfl
          | infinity => rfl
          | finite s m e =>
              simp only [changeValue, Value.ofOption, Number.toValue, changeTime, Number.whole]
              split <;> simp_all [Except.map]

/-- An empty identifier of a person counts as none. -/
theorem personId_spelled {person : Value} {editor : Option String}
    (h : part person "id" = .ofOption .text editor) :
    personId person = .ok (editor.filter (· ≠ "")) := by
  rw [personId, h]
  cases editor with
  | none => rfl
  | some id =>
      by_cases hid : id = "" <;>
        simp [Value.ofOption, Value.isTruthy, Value.written, Value.isWritable, Value.plain,
          Except.map, Option.filter, hid]

/-- What a record is read as. -/
def readRecord (v : Value) : Except SourceError Record :=
  (recordOf v).mapError .fault

theorem readRecord_spelled (h : e.SpelledBy spelling fields v)
    (hc : columns.map Column.id = fields.map Content.Field.id) :
    ReadAs (Content.Stands columns) (readRecord v) e.dated := by
  obtain ⟨held, hheld, hkeyed⟩ := h.cells
  have hfields : part v "fields" = .object held := by
    rw [part]
    exact congrArg (·.getD .null) hheld
  have htime : part v "lastModifiedTime" = changeValue e.time := h.time
  have heditor : personId (part v "lastModifiedBy") = .ok (e.editor.filter (· ≠ "")) :=
    personId_spelled h.editor
  have hid : partText v "recordId" = .ok e.id := partText_eq h.id
  have hcells (f : Content.Field) (hf : f ∈ fields) :
      Value.lookup (held.map fun x => (.text x.1, x.2)) f.id = e.cell f.id := by
    rw [Content.lookup_object]
    exact hkeyed.cell f hf
  have hmade := Content.readAs_made e hcells hc
  rw [readRecord, recordOf, hfields, htime, heditor, hid, entriesOf_object, changeTime_spelled,
    ok_bind, ok_bind, ok_bind]
  cases hchanged : e.changed <;> rw [hchanged] at hmade <;> exact hmade

/-! ### The whole table -/

/-- A host that holds a table: it gives the columns, the pages of records, each at the token for it,
and the order of the view, if one is asked for. -/
structure Hosts (bridge : BridgeCall → BridgeReply) (t : Content) (viewId : Value) (size : Number)
    (view : Option (List String)) (metas : List Value) (pages : Paged Value) : Prop where
  columns : bridge (callFor .fields) = .value (.list metas)
  fields : List.Forall₂ (fun v f => Content.Field.SpelledBy spelling v f) metas t.fields
  served : ∀ a ∈ pages.parts, ∃ v,
    bridge (callFor (.records size a.token)) = .value v ∧ a.SpelledBy spelling v
  entries : List.Forall₂ (Content.Entry.SpelledBy spelling t.fields) pages.items t.entries
  storage : view = none → viewId = .null
  opened : view.isSome → viewId ≠ .null ∧ bridge (callFor (.view viewId)) = .host
  shown : ∀ ids, view = some ids →
    bridge ⟨"getVisibleRecordIdList", []⟩ = .value (.list (ids.map .text))

variable {t : Content} {viewId : Value} {size : Number} {view : Option (List String)}
variable {metas : List Value} {pages : Paged Value}

theorem itemsOrNone_list (vs : List Value) : itemsOrNone (.list vs) = .ok vs := by
  cases vs <;> rfl

theorem mapM_columnOf {metas : List Value} {fields : List Content.Field}
    (h : List.Forall₂ (fun v f => Content.Field.SpelledBy spelling v f) metas fields) :
    metas.mapM columnOf = fields.mapM Content.Field.column := by
  induction h with
  | nil => rfl
  | cons hv _ ih => rw [List.mapM_cons, List.mapM_cons, columnOf_spelled hv, ih]

theorem answer_fields (h : Hosts bridge t viewId size view metas pages) :
    answer bridge .fields = replyOf .fields (t.fields.mapM Content.Field.column) := by
  have hread : (itemsOrNone (.list metas) >>= fun vs => vs.mapM columnOf) =
      t.fields.mapM Content.Field.column := by
    rw [itemsOrNone_list, ok_bind, mapM_columnOf h.fields]
  change reply .fields (bridge (callFor .fields)) = _
  rw [h.columns, ← hread]
  rfl

theorem mapM_readRecord (items : List Value) :
    items.mapM readRecord = (items.mapM recordOf).mapError .fault := by
  induction items with
  | nil => rfl
  | cons v items ih =>
      rw [List.mapM_cons, List.mapM_cons, ih, readRecord]
      cases recordOf v with
      | error f => rfl
      | ok r => cases items.mapM recordOf <;> rfl

theorem pageOf_spelled {a : Part Value} (h : a.SpelledBy spelling v) :
    pageOf v = (a.items.mapM recordOf).map fun records =>
      ⟨records, a.next.isSome, part v "pageToken"⟩ := by
  have hitems : part v "records" = .list a.items := by
    rw [part]
    exact congrArg (·.getD .null) h.items
  have hmore : (part v "hasMore").isTruthy = a.next.isSome := h.more
  rw [pageOf, hitems, hmore, itemsOrNone_list, ok_bind]
  cases a.items.mapM recordOf <;> rfl

theorem answer_records (h : Hosts bridge t viewId size view metas pages) {a : Part Value}
    (ha : a ∈ pages.parts) :
    Reading.IsPage (answer bridge (.records size a.token)) a.next (a.items.mapM readRecord) := by
  obtain ⟨v, hv, hspelled⟩ := h.served a ha
  have hreply : answer bridge (.records size a.token) = replyOf .page (pageOf v) := by
    change reply (.records size a.token) (bridge (callFor (.records size a.token))) = _
    rw [hv]
    rfl
  rw [hreply, pageOf_spelled hspelled, mapM_readRecord]
  cases a.items.mapM recordOf with
  | error f => rfl
  | ok records =>
      refine ⟨part v "pageToken", rfl, fun next hnext => ?_⟩
      rw [part]
      exact congrArg (·.getD .null) (hspelled.token next hnext)

theorem visibleOf_texts (ids : List String) :
    visibleOf (.list (ids.map .text)) = .ok (ids.filter (· ≠ "")) := by
  change ((ids.map Value.text).filter Value.isTruthy).mapM Value.written = _
  induction ids with
  | nil => rfl
  | cons id ids ih =>
      rw [List.map_cons, List.filter_cons, List.filter_cons]
      by_cases hid : id = ""
      · simpa [Value.isTruthy, hid] using ih
      · have htruthy : (Value.text id).isTruthy = true := by simp [Value.isTruthy, hid]
        rw [if_pos htruthy, if_pos (decide_eq_true hid), List.mapM_cons, ih]
        rfl

theorem answer_view (h : Hosts bridge t viewId size view metas pages) (columns : List Column) :
    Reading.Orders (answer bridge) ⟨columns, viewId, size⟩
      (view.map fun ids => .ok (ids.filter (· ≠ ""))) := by
  cases hview : view with
  | none =>
      refine .storage ?_
      rw [Reading.hasView, h.storage hview]
  | some ids =>
      obtain ⟨hne, hopened⟩ := h.opened (by simp [hview])
      have hv : answer bridge (.view viewId) = .view ⟨viewId, true⟩ := by
        change reply (.view viewId) (bridge (callFor (.view viewId))) = _
        rw [hopened]
        rfl
      refine .view ?_ hv ?_
      · cases viewId <;> simp_all [Reading.hasView]
      · change reply (.visibleIds ⟨viewId, true⟩) (bridge ⟨"getVisibleRecordIdList", []⟩) = _
        rw [h.shown ids hview]
        change replyOf .visibleIds (visibleOf (.list (ids.map .text))) = _
        rw [visibleOf_texts]
        rfl

/-- What is read over a bridge is what the table holds, if its cells can be written. -/
theorem readTable_hosted (h : Hosts bridge t viewId size view metas pages) (hl : t.IsLegible)
    {bound : Nat} (hb : pages.early.length + 3 ≤ bound) :
    readTable bridge viewId size bound = (t.reading view).mapError .fault := by
  have hread (columns : List Column) (hc : t.fields.mapM Content.Field.column = .ok columns) :
      ReadAs (List.Forall₂ (Content.Stands columns))
        (Paged.gather (fun a : Part Value => a.items.mapM readRecord) pages.parts)
        (t.entries.mapM Content.Entry.dated) := by
    rw [Paged.gather_mapM fun _ _ => rfl, Paged.parts_items]
    exact .mapM (h.entries.imp fun v e hv =>
      readRecord_spelled hv (Content.ids_of_mapM hc))
  rw [readTable, answer_fields h, ← t.reading_of_records (Content.shows_filled view) hread hl]
  cases t.fields.mapM Content.Field.column with
  | error f => rfl
  | ok columns =>
      change Except.map _ (Reading.against _ ⟨columns, viewId, size⟩ bound .start) = _
      rw [Reading.against_pages _ pages (answer_view h columns) (fun a ha => answer_records h ha)
        hb]
      rfl

/-- The rows that a script gives are those of the table that it holds. -/
theorem readRows_hosted {s : Script} {handle : TableHandle} (ha : handle.answers = true)
    (h : Hosts s.reply t viewId size view metas pages) (hl : t.IsLegible)
    (hb : pages.early.length + 3 ≤ s.readBound) :
    (readRows s handle viewId size).1 = ((t.reading view).mapError .fault).map Prod.snd := by
  rw [readRows_eq s ha, readTable_hosted h hl hb]

end TableAudit.Embedded
