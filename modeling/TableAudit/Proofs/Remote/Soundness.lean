import TableAudit.Proofs.Cell.Writable
import TableAudit.Proofs.Remote.Reading
import TableAudit.Proofs.Remote.Replies

/-!
# Sound answers of remote tables

Whatever a remote interface replies, a question to a table comes to a value of the declared type or
to a failure with a message, provided that the payloads that arrive have the expected shape.
Nothing looks after that shape: a payload without it leads to another error.
-/

namespace TableAudit.Remote

open TableAudit.Http Exchange

/-! ### Shapes of payloads -/

/-- A column is read from a mapping whose type code is not infinite. -/
structure ColumnReads (item : Value) : Prop where
  mapping : item.isMap = true
  type : ∀ negative, item.get "type" ≠ .float (.infinity negative)

/-- The properties of a column are a mapping from texts, if they are anything. -/
structure ColumnFits (item : Value) : Prop extends ColumnReads item where
  property : (item.get "property").isTruthy = true → (item.get "property").IsObject

/-- A record is read from a mapping. Its cells are a mapping from texts, if they are anything, and
the time of its last change is finite if it is a number. -/
structure RecordFits (item : Value) : Prop where
  mapping : item.isMap = true
  fields : (item.get "fields").isTruthy = true → (item.get "fields").IsObject
  time : item.get "last_modified_time" ≠ .float .nan ∧
    ∀ negative, item.get "last_modified_time" ≠ .float (.infinity negative)

/-- A page has records and a token that is a text, if it is anything. -/
structure PageFits (data : Value) : Prop extends ListFits RecordFits data where
  token : (data.get "page_token").IsOptionalText

/-- A cell is taken from a mapping of the cells in a mapping of the record. -/
structure CellFits (data : Value) : Prop where
  mapping : data.isMap = true
  record : (orElse (data.get "record") (.map [])).isMap = true
  fields : (orElse ((orElse (data.get "record") (.map [])).get "fields") (.map [])).isMap = true

variable {v item : Value} {known : Names}

/-! ### Columns -/

theorem columnOf_eq (h : item.isMap = true) :
    columnOf item = (ColumnType.ofCode (item.get "type")).mapError .fault >>= fun t =>
      .ok ⟨idText item "field_id", idText item "field_name", t, item.get "description",
        orElse (item.get "property") (.map [])⟩ := by
  rw [columnOf, if_pos h]
  cases ColumnType.ofCode (item.get "type") <;> rfl

theorem columnOf_bare (h : ¬ item.isMap = true) : columnOf item = .error (.fault .noAttribute) :=
  if_neg h

theorem columnOf_ok_iff : (∃ c, columnOf item = .ok c) ↔ ColumnReads item := by
  by_cases h : item.isMap = true
  · rw [columnOf_eq h]
    constructor
    · rintro ⟨c, hc⟩
      refine ⟨h, ColumnType.ofCode_ok_iff.mp ?_⟩
      cases ht : ColumnType.ofCode (item.get "type") with
      | ok t => exact ⟨t, rfl⟩
      | error f =>
          rw [ht] at hc
          cases hc
    · intro hfits
      obtain ⟨t, ht⟩ := ColumnType.ofCode_ok_iff.mpr hfits.type
      exact ⟨_, by rw [ht]; rfl⟩
  · rw [columnOf_bare h]
    simp only [reduceCtorEq, exists_false, false_iff]
    exact fun hfits => h hfits.mapping

theorem columnOf_typed_iff : (∃ c, columnOf item = .ok c ∧ c.IsTyped) ↔ ColumnFits item := by
  by_cases h : item.isMap = true
  · have hproperties : ∀ c, columnOf item = .ok c →
        (c.IsTyped ↔ ((item.get "property").isTruthy = true → (item.get "property").IsObject)) := by
      intro c hc
      rw [columnOf_eq h] at hc
      obtain ⟨t, -, hc⟩ := bind_ok_iff.mp hc
      rw [← Except.ok.inj hc]
      exact Value.isObject_orEmpty
    constructor
    · rintro ⟨c, hc, htyped⟩
      exact ⟨columnOf_ok_iff.mp ⟨c, hc⟩, (hproperties c hc).mp htyped⟩
    · intro hfits
      obtain ⟨c, hc⟩ := columnOf_ok_iff.mpr hfits.toColumnReads
      exact ⟨c, hc, (hproperties c hc).mpr hfits.property⟩
  · rw [columnOf_bare h]
    simp only [reduceCtorEq, false_and, exists_false, false_iff]
    exact fun hfits => h hfits.mapping

/-! ### Records -/

theorem changeTime_ok_iff :
    (∃ t, changeTime v = .ok t ∧ ∀ n, t = some n → ∃ k, n = Number.int k) ↔
      v ≠ .float .nan ∧ ∀ negative, v ≠ .float (.infinity negative) := by
  cases v with
  | float x =>
      cases x with
      | nan => simp [changeTime]
      | infinity negative => simp [changeTime, Number.Binary64.truncate?]
      | finite s m e => simp [changeTime, Number.Binary64.truncate?]
  | _ => simp [changeTime]

theorem keys_renamed {entries : List (Value × Value)} :
    (∀ e ∈ entries.map fun e => (cellKey known e.1, e.2), ∃ s, e.1 = Value.text s) ↔
      ∀ e ∈ entries, ∃ s, e.1 = Value.text s := by
  rw [List.forall_mem_map]
  refine forall₂_congr fun e _ => ?_
  cases e.1 <;> simp [cellKey]

theorem cellsOf_typed_iff :
    (∃ cells, cellsOf known v = .ok cells ∧ ∀ e ∈ cells, ∃ s, e.1 = Value.text s) ↔
      (v.isTruthy = true → v.IsObject) := by
  by_cases htrue : v.isTruthy = true
  · rw [cellsOf.eq_def, if_pos htrue]
    cases v with
    | map entries =>
        simp only [Except.ok.injEq, exists_eq_left', Value.keys_ofPairs, keys_renamed, htrue,
          true_implies, Value.IsObject, Value.map.injEq]
    | _ => simp [htrue, Value.IsObject]
  · rw [cellsOf.eq_def, if_neg htrue]
    exact iff_of_true ⟨[], rfl, List.forall_mem_nil _⟩ fun h => absurd h htrue

theorem recordOf_typed_iff : (∃ r, recordOf known item = .ok r ∧ r.IsTyped) ↔ RecordFits item := by
  by_cases h : item.isMap = true
  · rw [recordOf, attribute?_eq h, ok_bind]
    constructor
    · rintro ⟨r, hr, htyped⟩
      obtain ⟨cells, hcells, hr⟩ := bind_ok_iff.mp hr
      obtain ⟨time, htime, hr⟩ := bind_ok_iff.mp hr
      obtain rfl := Except.ok.inj hr
      exact ⟨h, cellsOf_typed_iff.mp ⟨cells, hcells, htyped.fields⟩,
        changeTime_ok_iff.mp ⟨time, htime, htyped.time⟩⟩
    · intro hfits
      obtain ⟨cells, hcells, hkeys⟩ := cellsOf_typed_iff.mpr hfits.fields
      obtain ⟨time, htime, hint⟩ := changeTime_ok_iff.mpr hfits.time
      exact ⟨_, by rw [hcells, htime]; rfl, hkeys, hint⟩
  · have hbare : recordOf known item = .error (.fault .noAttribute) := by
      rw [recordOf, attribute?, if_neg h]
      rfl
    rw [hbare]
    simp only [reduceCtorEq, false_and, exists_false, false_iff]
    exact fun hfits => h hfits.mapping

theorem recordIdOf_ok_iff : (∃ id, recordIdOf item = .ok id) ↔ item.isMap = true := by
  rw [recordIdOf, attribute?]
  split <;> simp [Except.map, *]

/-! ### Questions -/

variable {l : Location} {now : Calendar.Moment} {m : Memory} {replies : List Reply} {pages : Nat}

theorem ListFits.congr {F G : Value → Prop} {data : Value} (h : ∀ item, F item ↔ G item) :
    ListFits F data ↔ ListFits G data := by
  rw [funext fun item => propext (h item)]

/-- The columns can be read from the payloads that arrive. -/
def ColumnsRead (l : Location) (replies : List Reply) : Prop :=
  ∀ data ∈ arrivals (fieldsRequest l) replies .null, ListFits ColumnReads data

/-- Remembering the columns keeps the result. -/
theorem held_fields (l : Location) (bound : Nat) :
    (held now (fields l bound) m replies).1 = (held now (pagesFrom (fieldsRequest l)
      (·.mapM columnOf) "field pagination stalled" bound .null []) m replies).1 := by
  have hread : columnsOf = (·.mapM columnOf) := funext columnsOf_eq
  rw [fields, held_bind, hread]
  generalize held now (pagesFrom _ _ _ _ _ _) m replies = found
  obtain ⟨result, m', rest⟩ := found
  cases result <;> rfl

theorem isSound_fields (h : replies.length < pages) :
    IsSound (held now (fields l pages) m replies).1 ↔ ColumnsRead l replies := by
  have hf : ∀ item message, columnOf item ≠ .error (.failure message) :=
    fun item message => columnOf_ne_error (failure_ne_fault message) item
  rw [held_fields, isSound_pagesFrom (fun _ => rfl) hf _ m h, ColumnsRead]
  refine forall₂_congr fun data _ => ?_
  rw [exists_itemsRead_iff]
  exact ListFits.congr fun item => columnOf_ok_iff

theorem isSound_names (h : replies.length < pages) :
    IsSound (held now (names l pages) m replies).1 ↔ (m = none → ColumnsRead l replies) := by
  cases m with
  | some columns => exact iff_of_true (isSound_ok _) fun hm => absurd hm (Option.some_ne_none columns)
  | none =>
      have hnames : held now (names l pages) none replies =
          held now (fields l pages >>= fun columns => pure (namesOf columns)) none replies := rfl
      rw [hnames, held_map, isSound_map_iff, isSound_fields h]
      simp

theorem isSound_nameOf (h : replies.length < pages) (columnId : String) :
    IsSound (held now (nameOf l pages columnId) m replies).1 ↔
      (m = none → ColumnsRead l replies) := by
  rw [nameOf, ← yields_true, yields_held_bind, isSound_names h]
  refine and_iff_left fun known m' rest _ => yields_true.mpr ?_
  cases nameOf? known columnId with
  | none => exact isSound_failure _
  | some name => exact isSound_ok name

theorem yields_fields (h : replies.length < pages) :
    Yields (TableCall.fields.Admits) (held now (answer l pages .fields) m replies).1 ↔
      ColumnsRead l replies ∧ ((∃ columns, (held now (fields l pages) m replies).1 = .ok columns) →
        ∀ data ∈ arrivals (fieldsRequest l) replies .null, ListFits ColumnFits data) := by
  rw [answer, held_map, yields_iff, isSound_map_iff, isSound_fields h]
  refine and_congr_right fun _ => ?_
  cases hfields : (held now (fields l pages) m replies).1 with
  | error e => simp [Except.map]
  | ok columns =>
      have htyped : (∀ c ∈ columns, c.IsTyped) ↔ _ :=
        forall_found_iff (fun _ => rfl) _ m pages .null [] columns
          ((held_fields l pages).symm.trans hfields)
      have hfits : (∀ data ∈ arrivals (fieldsRequest l) replies .null,
          ∃ found, itemsRead columnOf data = .ok found ∧ ∀ c ∈ found, c.IsTyped) ↔
          ∀ data ∈ arrivals (fieldsRequest l) replies .null, ListFits ColumnFits data := by
        refine forall₂_congr fun data _ => ?_
        rw [itemsRead_ok_iff]
        exact ListFits.congr fun item => columnOf_typed_iff
      rw [← hfits]
      simpa [Except.map, TableCall.Admits] using htyped

/-- The page of a payload. -/
def pageRead (known : Names) (data : Value) : Except SourceError Page :=
  (itemsRead (recordOf known) data).map fun records =>
    ⟨records, (data.get "has_more").isTruthy, data.get "page_token"⟩

theorem yields_pageRead {data : Value} :
    Yields (fun p => (∀ r ∈ p.records, r.IsTyped) ∧ p.token.IsOptionalText) (pageRead known data) ↔
      PageFits data := by
  have hf : ∀ item message, recordOf known item ≠ .error (.failure message) :=
    fun item message => recordOf_ne_error (failure_ne_fault message) known item
  have hlist : (∃ found, itemsRead (recordOf known) data = .ok found ∧ ∀ r ∈ found, r.IsTyped) ↔
      ListFits RecordFits data :=
    itemsRead_ok_iff.trans (ListFits.congr fun item => recordOf_typed_iff)
  rw [pageRead, yields_map_iff, yields_iff_exists (itemsRead_ne_failure hf data)]
  constructor
  · rintro ⟨found, hfound, htyped, htoken⟩
    exact ⟨hlist.mp ⟨found, hfound, htyped⟩, htoken⟩
  · intro hfits
    obtain ⟨found, hfound, htyped⟩ := hlist.mpr hfits.toListFits
    exact ⟨found, hfound, htyped, hfits.token⟩

/-- A page of records is read from the payload that arrives, with the names of the columns. -/
theorem held_records (size : Number) (token : Value) (m : Memory) (replies : List Reply) :
    held now (records l pages size token) m replies =
      match payloadOf (recordsRequest l size token) (nextReply replies) with
      | .error e => (.error e, m, replies.tail)
      | .ok data =>
        match held now (names l pages) m replies.tail with
        | (.error e, rest) => (.error e, rest)
        | (.ok known, rest) => (pageRead known data, rest) := by
  rw [records, held_bind, held_exchange_bare rfl]
  cases payloadOf (recordsRequest l size token) (nextReply replies) with
  | error e => rfl
  | ok data =>
      simp only [held_bind, held_lift, recordsOf_eq, pageRead, itemsRead]
      obtain ⟨result, m', rest⟩ := held now (names l pages) m replies.tail
      cases result with
      | error e => rfl
      | ok known =>
          simp only
          cases itemsOf data with
          | error e => rfl
          | ok items =>
              simp only [ok_bind]
              cases items.mapM (recordOf known) <;> rfl

theorem yields_records (h : replies.length < pages) (size : Number) (token : Value) :
    Yields ((TableCall.records size token).Admits)
        (held now (answer l pages (.records size token)) m replies).1 ↔
      ∀ data, payloadOf (recordsRequest l size token) (nextReply replies) = .ok data →
        (m = none → ColumnsRead l replies.tail) ∧
          ((∃ known, (held now (names l pages) m replies.tail).1 = .ok known) → PageFits data) := by
  have htail : replies.tail.length < pages := by
    rw [List.length_tail]
    omega
  have hsound := isSound_payloadOf (recordsRequest l size token) (nextReply replies)
  rw [answer, held_map, yields_map_iff, held_records, ← isSound_names htail]
  change Yields (fun p : Page => (∀ r ∈ p.records, r.IsTyped) ∧ p.token.IsOptionalText) _ ↔ _
  cases hpayload : payloadOf (recordsRequest l size token) (nextReply replies) with
  | error e =>
      rw [hpayload] at hsound
      refine iff_of_true (yields_error_iff.mpr ((isSound_error_congr e).mp hsound)) ?_
      exact fun data hdata => absurd hdata.symm (ok_ne_error data e)
  | ok data =>
      simp only [Except.ok.injEq, forall_eq']
      obtain ⟨result, m', rest⟩ := held now (names l pages) m replies.tail
      cases result with
      | error e =>
          simp only [yields_error_iff, reduceCtorEq, exists_false, false_implies, and_true]
          exact isSound_error_congr e
      | ok known => simp [yields_pageRead, isSound_ok]

theorem yields_visibleIds (h : replies.length < pages) (view : ViewHandle) :
    Yields ((TableCall.visibleIds view).Admits)
        (held now (answer l pages (.visibleIds view)) m replies).1 ↔
      ∀ data ∈ arrivals (visibleRequest l (parameterText view.id)) replies .null,
        ListFits (fun item => item.isMap = true) data := by
  have hf : ∀ item message, recordIdOf item ≠ .error (.failure message) :=
    fun item message => recordIdOf_ne_error (failure_ne_fault message) item
  rw [answer, held_map, yields_map_iff]
  change Yields (fun _ => True) (held now (pagesFrom _ (·.mapM recordIdOf) _ _ _ _) m replies).1 ↔ _
  rw [yields_true, isSound_pagesFrom (fun _ => rfl) hf _ m h]
  refine forall₂_congr fun data _ => ?_
  rw [exists_itemsRead_iff]
  exact ListFits.congr fun item => recordIdOf_ok_iff

/-- The cell under a name in a payload. -/
def cellRead (name : String) (data : Value) : Except SourceError Value := do
  let record ← attribute? data "record"
  let fields ← attribute? (orElse record (.map [])) "fields"
  attribute? (orElse fields (.map [])) name

theorem isSound_attribute?_iff {key : String} : IsSound (attribute? v key) ↔ v.isMap = true := by
  rw [attribute?]
  split
  · exact iff_of_true (isSound_ok _) ‹_›
  · exact iff_of_false (not_isSound_fault _) ‹_›

theorem isSound_cellRead {name : String} {data : Value} :
    IsSound (cellRead name data) ↔ CellFits data := by
  constructor
  · intro h
    obtain ⟨hdata, h⟩ := isSound_bind_iff.mp h
    have hmap := isSound_attribute?_iff.mp hdata
    obtain ⟨hrecord, h⟩ := isSound_bind_iff.mp (h _ (attribute?_eq hmap _))
    have hrecordMap := isSound_attribute?_iff.mp hrecord
    exact ⟨hmap, hrecordMap, isSound_attribute?_iff.mp (h _ (attribute?_eq hrecordMap _))⟩
  · intro h
    rw [cellRead, attribute?_eq h.mapping, ok_bind, attribute?_eq h.record, ok_bind]
    exact isSound_attribute?_iff.mpr h.fields

theorem held_cellRead (name : String) (data : Value) (m : Memory) (replies : List Reply) :
    held now (do
      let record ← lift (attribute? data "record")
      let fields ← lift (attribute? (orElse record (.map [])) "fields")
      lift (attribute? (orElse fields (.map [])) name)) m replies =
        (cellRead name data, m, replies) := by
  rw [held_bind, held_lift, cellRead]
  cases attribute? data "record" with
  | error e => rfl
  | ok record =>
      simp only [held_bind, held_lift, ok_bind]
      cases attribute? (orElse record (.map [])) "fields" <;> rfl

theorem yields_cell (h : replies.length < pages) (columnId recordId : String) :
    Yields ((TableCall.cell columnId recordId).Admits)
        (held now (answer l pages (.cell columnId recordId)) m replies).1 ↔
      (m = none → ColumnsRead l replies) ∧
        ∀ name m' rest, held now (nameOf l pages columnId) m replies = (.ok name, m', rest) →
          ∀ data, payloadOf (l.get ["records", recordId] none) (nextReply rest) = .ok data →
            CellFits data := by
  rw [answer, held_map, yields_map_iff]
  change Yields (fun _ => True) _ ↔ _
  rw [cell, yields_held_bind, isSound_nameOf h]
  refine and_congr_right fun _ => forall₄_congr fun name m' rest _ => ?_
  rw [yields_held_bind, held_exchange_bare rfl, and_iff_right (isSound_payloadOf _ _)]
  simp only [held_cellRead, yields_true, isSound_cellRead, Prod.mk.injEq]
  constructor
  · intro hcell data hdata
    exact hcell data m' rest.tail ⟨hdata, rfl, rfl⟩
  · rintro hcell data _ _ ⟨hdata, -, -⟩
    exact hcell data hdata

/-- A value is sent as a JSON document, or it is refused for a number that JSON has no form for or
that is too long. -/
def Sendable (name : String) (value : Value) : Prop :=
  ∀ f, Json.document (.object [("fields", .object [(name, value)])]) = .error f →
    f = .malformed ∨ f = .digitLimit

theorem isSound_put {recordId name : String} {value : Value} {m : Memory} {replies : List Reply} :
    IsSound (held now (exchange
        (l.put recordId (.object [("fields", .object [(name, value)])]))) m replies).1 ↔
      Sendable name value := by
  rw [held_exchange, sendable, Sendable]
  simp only [Location.put]
  cases Json.document (.object [("fields", .object [(name, value)])]) with
  | ok d => exact iff_of_true (isSound_payloadOf _ _) fun f hf => absurd hf (ok_ne_error d f)
  | error f =>
      cases f with
      | malformed => exact iff_of_true (isSound_failure _) fun f hf => Or.inl (Except.error.inj hf).symm
      | digitLimit => exact iff_of_true (isSound_failure _) fun f hf => Or.inr (Except.error.inj hf).symm
      | _ => exact iff_of_false (not_isSound_fault _) fun hf => by simpa using hf _ rfl

theorem yields_setCell (h : replies.length < pages) (columnId recordId : String) (value : Value) :
    Yields ((TableCall.setCell columnId recordId value).Admits)
        (held now (answer l pages (.setCell columnId recordId value)) m replies).1 ↔
      (m = none → ColumnsRead l replies) ∧
        ∀ name m' rest, held now (nameOf l pages columnId) m replies = (.ok name, m', rest) →
          Sendable name value := by
  rw [answer, held_map, yields_map_iff]
  change Yields (fun _ => True) _ ↔ _
  rw [setCell, yields_held_bind, isSound_nameOf h]
  refine and_congr_right fun _ => forall₄_congr fun name m' rest _ => ?_
  rw [held_map, yields_map_iff, yields_true, isSound_put]

/-- What has to have the expected shape for a question to a table: the payloads that arrive, and a
value that is to be stored. The columns are asked for first where names of them are needed and not
remembered. -/
def Fits (l : Location) (now : Calendar.Moment) (m : Memory) (replies : List Reply) :
    TableCall → Prop
  | .fields =>
    ColumnsRead l replies ∧
      ((∃ columns, (held now (fields l (replies.length + 1)) m replies).1 = .ok columns) →
        ∀ data ∈ arrivals (fieldsRequest l) replies .null, ListFits ColumnFits data)
  | .records size token =>
    ∀ data, payloadOf (recordsRequest l size token) (nextReply replies) = .ok data →
      (m = none → ColumnsRead l replies.tail) ∧
        ((∃ known, (held now (names l (replies.length + 1)) m replies.tail).1 = .ok known) →
          PageFits data)
  | .view _ => True
  | .visibleIds view =>
    ∀ data ∈ arrivals (visibleRequest l (parameterText view.id)) replies .null,
      ListFits (fun item => item.isMap = true) data
  | .cell columnId recordId =>
    (m = none → ColumnsRead l replies) ∧
      ∀ name m' rest,
        held now (nameOf l (replies.length + 1) columnId) m replies = (.ok name, m', rest) →
        ∀ data, payloadOf (l.get ["records", recordId] none) (nextReply rest) = .ok data →
          CellFits data
  | .setCell columnId _ value =>
    (m = none → ColumnsRead l replies) ∧
      ∀ name m' rest,
        held now (nameOf l (replies.length + 1) columnId) m replies = (.ok name, m', rest) →
        Sendable name value

/-- Whatever the replies are, a question to a table comes to a value of the declared type or to a
failure with a message, just if what arrives has the expected shape. -/
theorem answer_yields_iff (l : Location) (now : Calendar.Moment) (m : Memory)
    (replies : List Reply) (c : TableCall) :
    Yields c.Admits (held now (answer l (replies.length + 1) c) m replies).1 ↔
      Fits l now m replies c := by
  have h : replies.length < replies.length + 1 := Nat.lt_succ_self _
  cases c with
  | fields => exact yields_fields h
  | records size token => exact yields_records h size token
  | view id => exact iff_of_true (yields_ok_iff.mpr trivial) trivial
  | visibleIds view => exact yields_visibleIds h view
  | cell columnId recordId => exact yields_cell h columnId recordId
  | setCell columnId recordId value => exact yields_setCell h columnId recordId value

end TableAudit.Remote
