import TableAudit.Proofs.Json.Documents
import TableAudit.Proofs.Remote.Servers
import TableAudit.Proofs.Source.Spelled

/-!
# Cells of a remote table

A remote interface keys cells by the names of columns, a table by their identifiers. Names and
identifiers may be mixed up in any way: what is read under an identifier is what stands under the
name of its column, and what is written there is read there afterwards, while all other cells stay as
they are. Only a reply with an integer that is too long is not read.
-/

namespace TableAudit.Remote

open TableAudit.Http Exchange

section

variable {S σ α β : Type} {serve : Server S} {now : Calendar.Moment} {s : S}

/-! ### Columns -/

/-- The columns of a table: no two have the same identifier or the same name, and no type code is
infinite. -/
structure Header where
  fields : List Content.Field
  ids : (fields.map Content.Field.id).Nodup
  names : (fields.map Content.Field.name).Nodup
  types : ∀ f ∈ fields, ∀ negative, f.type ≠ .float (.infinity negative)

namespace Header

variable {h : Header} {f : Content.Field}

/-- A table without records. -/
def table (h : Header) : Content :=
  ⟨h.fields, [], h.ids, h.names, List.nodup_nil, List.forall_mem_nil _⟩

/-- The columns to be read. -/
def columns (h : Header) : List Column :=
  (h.fields.mapM Content.Field.column).toOption.getD []

theorem mapM_column (h : Header) : h.fields.mapM Content.Field.column = .ok h.columns := by
  obtain ⟨cs, hcs⟩ : ∃ cs, h.fields.mapM Content.Field.column = .ok cs := by
    refine exists_mapM_ok fun f hf => ?_
    obtain ⟨type, htype⟩ := ColumnType.ofCode_ok_iff.mpr (h.types f hf)
    exact ⟨_, by rw [Content.Field.column, htype]; rfl⟩
  rw [columns, hcs]
  rfl

/-- What may be remembered of a table: nothing, or its columns. -/
def Remembered (h : Header) (m : Memory) : Prop :=
  m = none ∨ m = some h.columns

theorem namesOf_columns (h : Header) :
    namesOf h.columns = h.fields.map fun f => (f.name, f.id) := by
  have hswap := congrArg (List.map Prod.swap) (Content.columns_of_mapM h.mapM_column)
  rw [List.map_map, List.map_map] at hswap
  rw [namesOf_eq (Content.names_of_mapM h.mapM_column ▸ h.names)]
  exact hswap

theorem nameOf?_eq_find (h : Header) (columnId : String) :
    nameOf? (namesOf h.columns) columnId =
      (h.fields.find? (·.id = columnId)).map Content.Field.name := by
  rw [nameOf?, namesOf_columns, List.find?_map, Option.map_map]
  rfl

/-- The name of a column is found by its identifier, whatever the other columns are called. -/
theorem nameOf?_columns (hf : f ∈ h.fields) : nameOf? (namesOf h.columns) f.id = some f.name := by
  have hsome : (h.fields.find? (·.id = f.id)).isSome = true :=
    List.find?_isSome.mpr ⟨f, hf, decide_eq_true rfl⟩
  obtain ⟨g, hg⟩ := Option.isSome_iff_exists.mp hsome
  have hid : g.id = f.id := by
    have hfound := List.find?_some hg
    exact of_decide_eq_true hfound
  obtain rfl := List.inj_on_of_nodup_map h.ids (List.mem_of_find?_eq_some hg) hf hid
  rw [nameOf?_eq_find, hg]
  rfl

/-- An identifier of no column has no name. -/
theorem nameOf?_unknown {columnId : String} (hid : ∀ f ∈ h.fields, f.id ≠ columnId) :
    nameOf? (namesOf h.columns) columnId = none := by
  rw [nameOf?_eq_find, Option.map_eq_none_iff, List.find?_eq_none]
  intro f hf heq
  exact hid f hf (of_decide_eq_true heq)

end Header

variable {h : Header} {f : Content.Field} {service : Request → Reply} {sent : Request → Value}
variable {l : Location} {pages : Nat} {m : Memory}

/-- A service that gives the columns of a table in pages. -/
structure ServesHeader (service : Request → Reply) (sent : Request → Value) (l : Location)
    (pages : Nat) (h : Header) (cut : Paged Value) : Prop where
  parts : ∀ a ∈ cut.parts, SendsPage service sent (fieldsRequest l a.token) a
  arrive : ∀ a ∈ cut.parts, Json.fits (sent (fieldsRequest l a.token)) = true
  columns : List.Forall₂ (fun v f => Content.Field.SpelledBy spelling v f) cut.items h.fields
  within : cut.early.length < pages

theorem ServesHeader.outcome_fields {cut : Paged Value}
    (hs : ServesHeader service sent l pages h cut) (m : Memory) :
    outcome service now (fields l pages) m = (.ok h.columns, some h.columns) := by
  have hread : gathered sent (fieldsRequest l) columnsOf cut = .ok h.columns := by
    rw [gathered_fits hs.arrive columnsOf_eq, mapM_columnOf hs.columns, h.mapM_column]
    rfl
  rw [fields, outcome_bind, outcome_pages _ (fun _ => rfl) hs.parts hs.within, hread]
  rfl

/-- The names of the columns are asked for, or remembered. -/
theorem ServesHeader.outcome_names {cut : Paged Value}
    (hs : ServesHeader service sent l pages h cut) (hm : h.Remembered m) :
    outcome service now (names l pages) m = (.ok (namesOf h.columns), some h.columns) := by
  obtain rfl | rfl := hm
  · have hnames : outcome service now (names l pages) none =
        outcome service now (fields l pages >>= fun columns => pure (namesOf columns)) none := rfl
    rw [hnames, outcome_bind, hs.outcome_fields]
    rfl
  · rfl

/-! ### Records -/

/-- A record as it is sent: its cells go by names of columns, and the time of its last change is
finite, if it is a number. -/
structure IsRecord (h : Header) (held : List (String × Value)) (item : Value) : Prop where
  cells : item.get? "fields" = some (.object held)
  once : (held.map Prod.fst).Nodup
  known : ∀ name ∈ held.map Prod.fst, ∃ f ∈ h.fields, f.name = name
  time : item.get "last_modified_time" ≠ .float .nan ∧
    ∀ negative, item.get "last_modified_time" ≠ .float (.infinity negative)

/-- A record as it is read: under the identifier of each column is what stood under its name, and
there is nothing else. -/
structure IsKept (h : Header) (held : List (String × Value)) (item : Value) (r : Record) : Prop where
  id : r.id = (item.get "record_id").plain
  cells : ∀ f ∈ h.fields, Value.lookup r.fields f.id = held.lookup f.name
  known : ∀ key ∈ r.fields.map Prod.fst, ∃ f ∈ h.fields, key = .text f.id
  once : (r.fields.map Prod.fst).Nodup

variable {held : List (String × Value)} {item : Value}

/-- The cells of a record by the identifiers of columns. -/
def renamed (h : Header) (held : List (String × Value)) : List (String × Value) :=
  held.map fun x => (idOf (namesOf h.columns) x.1, x.2)

/-- A cell goes by the identifier of its column just as it went by the name. -/
theorem IsRecord.keyed_renamed (hr : IsRecord h held item) :
    Content.Keyed Content.Field.id h.fields
      (fun id => (nameOf? (namesOf h.columns) id).bind fun name => held.lookup name)
      (renamed h held) := by
  apply Remote.keyed_renamed (t := h.table) h.mapM_column
  constructor
  · exact hr.once
  · exact hr.known
  · intro f hf
    rw [Header.nameOf?_columns hf]
    rfl

theorem IsRecord.recordOf_eq (hr : IsRecord h held item) :
    ∃ time, recordOf (namesOf h.columns) item = .ok ⟨(item.get "record_id").plain,
      (renamed h held).map fun x => (.text x.1, x.2), personId (item.get "last_modified_by"),
      time⟩ := by
  have hfields : attribute? item "fields" = .ok (.object held) := by
    rw [attribute?_eq (isMap_of_get? hr.cells), Value.get, hr.cells]
    rfl
  have honce : ((held.map Prod.fst).map (idOf (namesOf h.columns))).Nodup := by
    have honce := hr.keyed_renamed.once
    rw [renamed, List.map_map] at honce
    rwa [List.map_map]
  obtain ⟨time, htime, -⟩ := changeTime_ok_iff.mpr hr.time
  refine ⟨time, ?_⟩
  rw [recordOf, hfields, ok_bind, cellsOf_object honce, htime]
  rfl

/-- Every cell of a record is read under the identifier of its column. -/
theorem recordOf_kept (hr : IsRecord h held item) :
    ∃ r, recordOf (namesOf h.columns) item = .ok r ∧ IsKept h held item r := by
  have hkeyed := hr.keyed_renamed
  obtain ⟨time, hread⟩ := hr.recordOf_eq
  refine ⟨_, hread, ?_⟩
  constructor
  · rfl
  · intro f hf
    dsimp only
    rw [Content.lookup_object, hkeyed.cell f hf, Header.nameOf?_columns hf]
    rfl
  · intro key hkey
    rw [List.map_map] at hkey
    obtain ⟨x, hx, rfl⟩ := List.mem_map.mp hkey
    obtain ⟨f, hf, hid⟩ := hkeyed.known x.1 (List.mem_map_of_mem hx)
    exact ⟨f, hf, congrArg Value.text hid.symm⟩
  · have hinj : Function.Injective Value.text := fun a b => Value.text.inj
    have hnodup := hkeyed.once.map hinj
    rw [List.map_map] at hnodup
    rwa [List.map_map]

/-- Records are read as they are sent. -/
theorem mapM_recordOf {items : List Value} (hitems : ∀ item ∈ items, ∃ held, IsRecord h held item) :
    ∃ rs, items.mapM (recordOf (namesOf h.columns)) = .ok rs ∧
      List.Forall₂ (fun item r => ∃ held, IsRecord h held item ∧ IsKept h held item r) items rs := by
  induction items with
  | nil => exact ⟨[], rfl, .nil⟩
  | cons item items ih =>
      rw [List.forall_mem_cons] at hitems
      obtain ⟨held, hr⟩ := hitems.1
      obtain ⟨r, hread, hkept⟩ := recordOf_kept hr
      obtain ⟨rs, hreads, hall⟩ := ih hitems.2
      refine ⟨r :: rs, ?_, .cons ⟨held, hr, hkept⟩ hall⟩
      rw [List.mapM_cons, hread, hreads]
      rfl

variable {size : Number} {token : Value} {a : Part Value} {sent' : Request → Value}

/-- A page of records as it is read. -/
structure IsPage (h : Header) (a : Part Value) (page : Page) : Prop where
  records : List.Forall₂ (fun item r => ∃ held, IsRecord h held item ∧ IsKept h held item r) a.items
    page.records
  more : page.hasMore = a.next.isSome
  token : ∀ next, a.next = some next → page.token = .text next

/-- A page of records is read, if no integer in it is too long. -/
theorem ServesHeader.outcome_records {cut : Paged Value}
    (hs : ServesHeader service sent l pages h cut) (hm : h.Remembered m)
    (hp : SendsPage service sent' (recordsRequest l size token) a)
    (hfits : Json.fits (sent' (recordsRequest l size token)) = true)
    (hitems : ∀ item ∈ a.items, ∃ held, IsRecord h held item) :
    ∃ page, outcome service now (records l pages size token) m = (.ok page, some h.columns) ∧
      IsPage h a page := by
  obtain ⟨data, hopened, -, hread, hspelled⟩ | ⟨e, -, harriving⟩ := hp.cases
  · obtain ⟨rs, hrs, hkept⟩ := mapM_recordOf hitems
    refine ⟨⟨rs, (data.get "has_more").isTruthy, data.get "page_token"⟩, ?_, hkept, hspelled.more,
      fun next hnext => ?_⟩
    · rw [records, outcome_bind, outcome_exchange rfl, hopened]
      simp only [outcome_bind, hs.outcome_names hm, outcome_lift, hread, recordsOf_eq, hrs]
      rfl
    · rw [Value.get]
      exact congrArg (·.getD .null) (hspelled.token next hnext)
  · rw [arriving_fits hfits] at harriving
    cases harriving

/-- No page is read if an integer in it is too long. -/
theorem outcome_records_lost (hp : SendsPage service sent' (recordsRequest l size token) a)
    (hlost : Json.fits (sent' (recordsRequest l size token)) = false) (m : Memory) :
    ∃ e, (outcome service now (records l pages size token) m).1 = .error e := by
  obtain ⟨data, -, harriving, -⟩ | ⟨e, hopened, -⟩ := hp.cases
  · rw [arriving, hlost] at harriving
    cases harriving
  · refine ⟨e, ?_⟩
    rw [records, outcome_bind, outcome_exchange rfl, hopened]

/-! ### Cells -/

/-- Whether the reply to a request carries a record with cells that go by names. -/
def SendsRecord (service : Request → Reply) (r : Request) (held : List (String × Value)) : Prop :=
  ∃ envelope data record, Carries (service r) envelope ∧ Json.fits envelope = true ∧
    IsEnvelope envelope data ∧ data.get? "record" = some record ∧
      record.get? "fields" = some (.object held)

/-- Whether a reply says that what was sent is accepted. -/
def Accepts (reply : Reply) : Prop :=
  ∃ envelope, Carries reply envelope ∧ Json.fits envelope = true ∧
    envelope.get? "code" = some (.int 0)

/-- The body by which a cell is written. -/
def cellBody (name : String) (v : Value) : Value :=
  .object [("fields", .object [(name, v)])]

/-- A server that holds the cells of records by names of columns and stores what it is sent. A cell
that is missing counts as one that holds nothing. What is replied about a record that is not there
does not depend on the cells of the others. -/
structure Stores (serve : Server S) (l : Location) (pages : Nat) (h : Header) (known : List String)
    (held : S → String → String → Value) (Valid : S → Prop) : Prop where
  still : ∀ s r, Valid s → r.body = none → serve.after s r = s
  header : ∀ s, Valid s → ∃ sent cut, ServesHeader (serve.replies s) sent l pages h cut
  sends : ∀ s id, Valid s → id ∈ known → ∃ cells,
    SendsRecord (serve.replies s) (l.get ["records", id] none) cells ∧
      ∀ f ∈ h.fields, (cells.lookup f.name).getD .null = held s id f.name
  accepts : ∀ s id f v, Valid s → id ∈ known → f ∈ h.fields → Json.IsDocument v →
    Accepts (serve.replies s (l.put id (cellBody f.name v))) ∧
      Valid (serve.after s (l.put id (cellBody f.name v)))
  stores : ∀ s id f v, Valid s → id ∈ known → f ∈ h.fields → Json.IsDocument v →
    ∀ other ∈ known, ∀ g ∈ h.fields,
      held (serve.after s (l.put id (cellBody f.name v))) other g.name =
        if other = id ∧ g.name = f.name then v else held s other g.name
  apart : ∀ s id f v, Valid s → id ∈ known → f ∈ h.fields → Json.IsDocument v →
    ∀ other ∉ known,
      serve.replies (serve.after s (l.put id (cellBody f.name v)))
          (l.get ["records", other] none) =
        serve.replies s (l.get ["records", other] none)

variable {id columnId : String} {cells : List (String × Value)} {known : List String}
variable {held : S → String → String → Value} {Valid : S → Prop} {v : Value}

/-- The name of a column, or that there is no such column. -/
def Header.nameOf (h : Header) (columnId : String) : Except SourceError String :=
  match nameOf? (namesOf h.columns) columnId with
  | some name => .ok name
  | none => .error (.failure ("unknown column id " ++ Text.quoted columnId))

theorem Header.nameOf_column (hf : f ∈ h.fields) : h.nameOf f.id = .ok f.name := by
  rw [nameOf, nameOf?_columns hf]

theorem Header.nameOf_unknown (hid : ∀ f ∈ h.fields, f.id ≠ columnId) :
    h.nameOf columnId = .error (.failure ("unknown column id " ++ Text.quoted columnId)) := by
  rw [nameOf, nameOf?_unknown hid]

theorem ServesHeader.outcome_nameOf {cut : Paged Value}
    (hs : ServesHeader service sent l pages h cut) (hm : h.Remembered m) (columnId : String) :
    outcome service now (nameOf l pages columnId) m = (h.nameOf columnId, some h.columns) := by
  rw [nameOf, outcome_bind, hs.outcome_names hm, Header.nameOf]
  dsimp only
  cases nameOf? (namesOf h.columns) columnId <;> rfl

/-- The payload of a record that arrives gives its cells by their names. -/
theorem cellRead_sent {r : Request} (hr : SendsRecord service r cells) (name : String) :
    ∃ data, opened service r = .ok data ∧
      cellRead name data = .ok ((cells.lookup name).getD .null) := by
  obtain ⟨envelope, data, record, hcarries, hfits, henvelope, hrecord, hcells⟩ := hr
  refine ⟨data, by rw [opened_eq hcarries henvelope, if_pos hfits], ?_⟩
  have hmap : record.isMap = true := isMap_of_get? hcells
  have htrue : orElse record (.map []) = record := by
    cases record with
    | map entries => cases entries <;> rfl
    | _ => cases hmap
  have hempty : orElse (.object cells) (.map []) = .object cells := by
    cases cells <;> rfl
  rw [cellRead, attribute?_eq (isMap_of_get? hrecord), Value.get, hrecord, ok_bind,
    Option.getD_some, htrue, attribute?_eq hmap, Value.get, hcells, ok_bind, Option.getD_some,
    hempty, attribute?_eq rfl, Value.get, ← Content.lookup_object]
  rfl

/-- A cell is read from the payload that is replied for its record, under the name of its column. -/
theorem ServesHeader.outcome_cell {cut : Paged Value}
    (hs : ServesHeader service sent l pages h cut) (hm : h.Remembered m) (columnId id : String) :
    outcome service now (cell l pages columnId id) m =
      (do
        let name ← h.nameOf columnId
        let data ← opened service (l.get ["records", id] none)
        cellRead name data, some h.columns) := by
  rw [cell, outcome_bind, hs.outcome_nameOf hm]
  cases h.nameOf columnId with
  | error e => rfl
  | ok name =>
      dsimp only
      rw [outcome_bind, outcome_exchange rfl]
      cases opened service (l.get ["records", id] none) with
      | error e => rfl
      | ok data =>
          simp only [outcome_bind, outcome_lift, ok_bind, cellRead]
          cases attribute? data "record" with
          | error e => rfl
          | ok record =>
              simp only [ok_bind]
              cases attribute? (orElse record (.map [])) "fields" <;> rfl

/-- A cell of any record is read from what is replied for the record. -/
theorem Stores.effect_cell (hk : Stores serve l pages h known held Valid) (hv : Valid s)
    (hm : h.Remembered m) (columnId id : String) :
    effect serve now (cell l pages columnId id) m s =
      ((do
        let name ← h.nameOf columnId
        let data ← opened (serve.replies s) (l.get ["records", id] none)
        cellRead name data, some h.columns), s) := by
  obtain ⟨sent, cut, hs⟩ := hk.header s hv
  rw [(onlyReads_cell l pages columnId id).effect_eq (fun r => hk.still s r hv),
    hs.outcome_cell hm]

/-- A cell of a record that is there is read from what the server holds. -/
theorem Stores.effect_cell_held (hk : Stores serve l pages h known held Valid) (hv : Valid s)
    (hm : h.Remembered m) (hid : id ∈ known) (columnId : String) :
    effect serve now (cell l pages columnId id) m s =
      (((h.nameOf columnId).map fun name => held s id name, some h.columns), s) := by
  obtain ⟨cells, hr, hheld⟩ := hk.sends s id hv hid
  rw [hk.effect_cell hv hm]
  by_cases hcolumn : ∃ f ∈ h.fields, f.id = columnId
  · obtain ⟨f, hf, rfl⟩ := hcolumn
    obtain ⟨data, hopened, hread⟩ := cellRead_sent hr f.name
    rw [Header.nameOf_column hf, hopened]
    simp only [ok_bind]
    rw [hread, hheld f hf]
    rfl
  · rw [Header.nameOf_unknown fun f hf heq => hcolumn ⟨f, hf, heq⟩]
    rfl

/-- A request that can be sent comes to the payload of its reply, and the server goes on with it. -/
theorem effect_exchange {r r' : Request} (hr : sendable r = .ok r') (m : σ) :
    effect serve now (exchange r) m s =
      ((opened (serve.replies s) r', m), serve.after s r') := by
  have hlift {γ : Type} (x : Except SourceError γ) (s : S) :
      effect serve now (exchange.liftExcept x : Exchange σ γ) m s = ((x, m), s) := by
    cases x <;> rfl
  rw [exchange, effect_bind, hr, hlift]
  change effect serve now (Exchange.request r' >>= _) m s = _
  rw [effect_bind]
  exact hlift _ _

/-- A request that cannot be sent comes to an error, and nothing changes. -/
theorem effect_exchange_refused {r : Request} {e : SourceError} (hr : sendable r = .error e)
    (m : σ) : effect serve now (exchange r) m s = ((.error e, m), s) := by
  rw [exchange, effect_bind, hr]
  rfl

theorem opened_accepted {r : Request} (h : Accepts (service r)) :
    ∃ data, opened service r = .ok data := by
  obtain ⟨envelope, ⟨response, hreply, hsuccess, hread⟩, hfits, hcode⟩ := h
  have hzero : (envelope.get "code").eqv (.int 0) = true := by
    rw [Value.get, hcode]
    rfl
  rw [if_pos hfits] at hread
  rw [opened, hreply, openReply, if_pos hsuccess, hread, ok_bind, openEnvelope,
    if_pos (isMap_of_get? hcode), if_pos hzero]
  exact ⟨_, rfl⟩

theorem document_cellBody (name : String) (v : Value) :
    Json.document (cellBody name v) = (Json.document v).map (cellBody name) := by
  have hentry (key : String) (v : Value) :
      Json.document (.object [(key, v)]) = (Json.document v).map fun d => .object [(key, d)] := by
    have hentries : Json.document (.object [(key, v)]) =
        (Json.documentEntries [(.text key, v)]).map fun es => .map (Value.ofPairs es) := rfl
    rw [hentries, Json.documentEntries]
    cases Json.document v <;> rfl
  rw [cellBody, hentry, hentry]
  cases Json.document v <;> rfl

theorem Stores.effect_nameOf (hk : Stores serve l pages h known held Valid) (hv : Valid s)
    (hm : h.Remembered m) (hf : f ∈ h.fields) :
    effect serve now (nameOf l pages f.id) m s = ((.ok f.name, some h.columns), s) := by
  obtain ⟨sent, cut, hs⟩ := hk.header s hv
  rw [(onlyReads_nameOf l pages f.id).effect_eq (fun r => hk.still s r hv), hs.outcome_nameOf hm,
    Header.nameOf_column hf]

theorem setCell_eq (l : Location) (pages : Nat) (columnId recordId : String) (v : Value) :
    setCell l pages columnId recordId v = (do
      let name ← nameOf l pages columnId
      let _ ← exchange (l.put recordId (cellBody name v))
      pure true) :=
  rfl

/-- A value that is sent as it is gets stored. -/
theorem Stores.effect_setCell (hk : Stores serve l pages h known held Valid) (hs : Valid s)
    (hm : h.Remembered m) (hf : f ∈ h.fields) (hid : id ∈ known) (hv : Json.IsDocument v) :
    effect serve now (setCell l pages f.id id v) m s =
      ((.ok true, some h.columns), serve.after s (l.put id (cellBody f.name v))) := by
  have hsend : sendable (l.put id (cellBody f.name v)) = .ok (l.put id (cellBody f.name v)) := by
    rw [sendable, Location.put]
    dsimp only
    rw [document_cellBody, hv.document_eq]
    rfl
  have haccepts : Accepts (serve.replies s (l.put id (cellBody f.name v))) :=
    (hk.accepts s id f v hs hid hf hv).1
  obtain ⟨data, hopened⟩ := opened_accepted haccepts
  rw [setCell_eq, effect_bind, hk.effect_nameOf hs hm hf]
  dsimp only
  rw [effect_bind, effect_exchange hsend, hopened]
  rfl

/-- A value that cannot be sent changes nothing. -/
theorem Stores.effect_setCell_refused (hk : Stores serve l pages h known held Valid)
    (hs : Valid s) (hm : h.Remembered m) (hf : f ∈ h.fields) {e : Fault}
    (hv : Json.document v = .error e) : ∃ e', effect serve now (setCell l pages f.id id v) m s =
      ((.error e', some h.columns), s) := by
  obtain ⟨e', hrefused⟩ : ∃ e', sendable (l.put id (cellBody f.name v)) = .error e' := by
    rw [sendable, Location.put]
    dsimp only
    rw [document_cellBody, hv]
    cases e <;> exact ⟨_, rfl⟩
  refine ⟨e', ?_⟩
  rw [setCell_eq, effect_bind, hk.effect_nameOf hs hm hf]
  dsimp only
  rw [effect_bind, effect_exchange_refused hrefused]

/-- What is read of a cell after a value was stored in another one is what was read before. -/
theorem Stores.cell_elsewhere (hk : Stores serve l pages h known held Valid) (hs : Valid s)
    (hm : h.Remembered m) (hf : f ∈ h.fields) (hid : id ∈ known) (hv : Json.IsDocument v)
    {other : String} (hne : columnId ≠ f.id ∨ other ≠ id) :
    (effect serve now (cell l pages columnId other) (some h.columns)
        (serve.after s (l.put id (cellBody f.name v)))).1.1 =
      (effect serve now (cell l pages columnId other) m s).1.1 := by
  have hvalid := (hk.accepts s id f v hs hid hf hv).2
  by_cases hother : other ∈ known
  · rw [hk.effect_cell_held hvalid (.inr rfl) hother, hk.effect_cell_held hs hm hother]
    by_cases hcolumn : ∃ g ∈ h.fields, g.id = columnId
    · obtain ⟨g, hg, rfl⟩ := hcolumn
      -- Columns of one name would be one column, whatever their identifiers.
      have hapart : ¬ (other = id ∧ g.name = f.name) := by
        rintro ⟨rfl, hname⟩
        obtain rfl := List.inj_on_of_nodup_map h.names hg hf hname
        exact hne.elim (fun hne => hne rfl) fun hne => hne rfl
      rw [Header.nameOf_column hg]
      exact congrArg Except.ok
        ((hk.stores s id f v hs hid hf hv other hother g hg).trans (if_neg hapart))
    · rw [Header.nameOf_unknown fun g hg heq => hcolumn ⟨g, hg, heq⟩]
      rfl
  · rw [hk.effect_cell hvalid (.inr rfl), hk.effect_cell hs hm, opened, opened,
      hk.apart s id f v hs hid hf hv other hother]

/-- A value that was stored is read from its cell. -/
theorem Stores.cell_stored (hk : Stores serve l pages h known held Valid) (hs : Valid s)
    (hf : f ∈ h.fields) (hid : id ∈ known) (hv : Json.IsDocument v) :
    (effect serve now (cell l pages f.id id) (some h.columns)
        (serve.after s (l.put id (cellBody f.name v)))).1.1 = .ok v := by
  have hvalid := (hk.accepts s id f v hs hid hf hv).2
  rw [hk.effect_cell_held hvalid (.inr rfl) hid, Header.nameOf_column hf]
  exact congrArg Except.ok
    ((hk.stores s id f v hs hid hf hv id hid f hf).trans (if_pos ⟨rfl, rfl⟩))

end

/-! ### A table whose columns are called by each other's identifiers -/

namespace Swapped

/-- Two columns, the first of which is called by the identifier of the second. -/
def header : Header where
  fields := [⟨"fldA", "fldB", .int 1, .null, .null⟩, ⟨"fldB", "Note", .int 1, .null, .null⟩]
  ids := (by decide : ["fldA", "fldB"].Nodup)
  names := (by decide : ["fldB", "Note"].Nodup)
  types := by simp

/-- The cells by records and names. -/
abbrev Cells := String → String → Value

def location : Location :=
  ⟨usualBaseUrl, "app1", "tbl1", none⟩

def recordIds : List String :=
  ["rec1", "rec2"]

/-- One column on each page. -/
def cut : Paged Value where
  early := [([(Content.Field.mk "fldA" "fldB" (.int 1) .null .null).spell spelling], "p2")]
  last := [(Content.Field.mk "fldB" "Note" (.int 1) .null .null).spell spelling]
  filled := (by decide : "" ∉ ["p2"])
  distinct := (by decide : ["p2"].Nodup)

/-- The page of columns that a request asks for. -/
def fieldsPage (r : Request) : Part Value :=
  if ((r.parameters.getD []).lookup "page_token").isSome then ⟨.text "p2", cut.last, none⟩
  else ⟨.null, cut.early.flatMap Prod.fst, some "p2"⟩

/-- The cells of a record. -/
def cellsOf (c : Cells) (id : String) : List (String × Value) :=
  [("fldB", c id "fldB"), ("Note", c id "Note")]

/-- A record as a mapping. -/
def record (c : Cells) (id : String) : Value :=
  .object [("record_id", .text id), ("fields", .object (cellsOf c id))]

/-- Both records on one page. -/
def recordsPage (c : Cells) : Part Value :=
  ⟨.null, recordIds.map (record c), none⟩

/-- The record that an address is one of. -/
def recordAt? (url : String) : Option String :=
  recordIds.find? fun id => url = location.url ["records", id]

/-- The payload of a reply. -/
def payload (c : Cells) (r : Request) : Value :=
  match recordAt? r.url with
  | some id => .object [("record", record c id)]
  | none =>
    if r.url = location.url ["fields"] then (fieldsPage r).spell spelling
    else if r.url = location.url ["records"] then (recordsPage c).spell spelling
    else .object []

/-- The cells after a body was stored at an address. -/
def stored (c : Cells) (url : String) (body : Value) : Cells := fun id name =>
  if recordAt? url = some id then ((body.get "fields").get? name).getD (c id name) else c id name

/-- A server with the cells. -/
def serve : Server Cells := fun c r =>
  match r.body with
  | none => (written (envelope (payload c r)), c)
  | some body => (written (envelope (.object [])), stored c r.url body)

/-- The cells that can be sent. -/
def Valid (c : Cells) : Prop :=
  ∀ id name, Json.IsDocument (c id name)

variable {c : Cells} {id : String}

theorem isJson_record (h : ∀ name, Json.IsJson (c id name)) : Json.IsJson (record c id) := by
  have hnames : ["fldB", "Note"].Nodup := by decide
  have hkeys : ["record_id", "fields"].Nodup := by decide
  have hcells : Json.IsJson (.object (cellsOf c id)) :=
    .object hnames (List.forall_iff_forall_mem.mp ⟨h "fldB", h "Note"⟩)
  exact .object hkeys (List.forall_iff_forall_mem.mp ⟨.text id, hcells⟩)

theorem fits_record (c : Cells) (id : String) :
    Json.fits (record c id) = (Json.fits (c id "fldB") && Json.fits (c id "Note")) := by
  simp [record, cellsOf, Json.fits_object, Json.fits]

theorem isRecord (c : Cells) (id : String) : IsRecord header (cellsOf c id) (record c id) where
  cells := rfl
  once := (by decide : ["fldB", "Note"].Nodup)
  known := (by decide : ∀ name ∈ ["fldB", "Note"], ∃ f ∈ header.fields, f.name = name)
  time := ⟨Value.noConfusion, fun _ => Value.noConfusion⟩

/-! What is replied. -/

theorem url_record (id : String) :
    location.url ["records", id] = location.url ["records"] ++ ("/" ++ id) := by
  have hpath : "/".intercalate ["records", id] = "records" ++ ("/" ++ id) :=
    String.append_assoc
  rw [Location.url, hpath, ← String.append_assoc]
  rfl

theorem recordAt?_url (id : String) :
    recordAt? (location.url ["records", id]) = recordIds.find? fun other => id = other := by
  simp only [recordAt?, url_record, String.append_right_inj]

theorem find_recordIds (hid : id ∈ recordIds) : (recordIds.find? fun other => id = other) = some id := by
  revert id
  decide

theorem payload_record (hid : id ∈ recordIds) (parameters : Option (List (String × String))) :
    payload c (location.get ["records", id] parameters) = .object [("record", record c id)] := by
  rw [payload, Location.get]
  dsimp only
  rw [recordAt?_url, find_recordIds hid]

theorem payload_fields (c : Cells) (token : Value) :
    payload c (fieldsRequest location token) =
      (fieldsPage (fieldsRequest location token)).spell spelling := by
  have hrecord : recordAt? (location.url ["fields"]) = none := by decide
  rw [payload, fieldsRequest, Location.get, hrecord]
  exact if_pos rfl

theorem payload_records (c : Cells) (size : Number) (token : Value) :
    payload c (recordsRequest location size token) = (recordsPage c).spell spelling := by
  have hrecord : recordAt? (location.url ["records"]) = none := by decide
  have hfields : location.url ["records"] ≠ location.url ["fields"] := by decide
  rw [payload, recordsRequest, Location.get, hrecord]
  exact (if_neg hfields).trans (if_pos rfl)

theorem payload_unknown (hid : id ∉ recordIds) (c c' : Cells)
    (parameters : Option (List (String × String))) :
    payload c (location.get ["records", id] parameters) =
      payload c' (location.get ["records", id] parameters) := by
  have hrecord : recordIds.find? (fun other => id = other) = none := by
    rw [List.find?_eq_none]
    rintro other hother heq
    exact hid (of_decide_eq_true heq ▸ hother)
  have hrecords : location.url ["records", id] ≠ location.url ["records"] := by
    intro heq
    have hlength := congrArg String.length heq
    rw [url_record] at hlength
    simp at hlength
  rw [payload, payload, Location.get]
  dsimp only
  rw [recordAt?_url, hrecord]
  dsimp only
  rw [if_neg hrecords, if_neg hrecords]

theorem sends_fields (c : Cells) : ServesHeader (serve.replies c)
    (fun r => envelope (payload c r)) location 2 header cut where
  parts := by
    refine List.forall_mem_cons.mpr ⟨?_, List.forall_mem_singleton.mpr ?_⟩
    · exact sendsPage_written rfl (congrArg envelope (payload_fields c _))
        (List.forall_mem_singleton.mpr (isJson_field (.int _) .null .null))
    · exact sendsPage_written rfl (congrArg envelope (payload_fields c _))
        (List.forall_mem_singleton.mpr (isJson_field (.int _) .null .null))
  arrive := by
    refine List.forall_mem_cons.mpr ⟨?_, List.forall_mem_singleton.mpr ?_⟩
    · rw [payload_fields]
      decide
    · rw [payload_fields]
      decide
  columns := .cons (field_spelled _) (.cons (field_spelled _) .nil)
  within := by decide

theorem sends_records (h : ∀ id name, Json.IsJson (c id name)) (size : Number) (token : Value) :
    SendsPage (serve.replies c) (fun r => envelope (payload c r))
      (recordsRequest location size token) (recordsPage c) := by
  refine sendsPage_written rfl (congrArg envelope (payload_records c size token)) ?_
  exact List.forall_mem_cons.mpr
    ⟨isJson_record (h "rec1"), List.forall_mem_singleton.mpr (isJson_record (h "rec2"))⟩

theorem sends_record (hc : Valid c) (hid : id ∈ recordIds) :
    SendsRecord (serve.replies c) (location.get ["records", id] none) (cellsOf c id) := by
  have hrecord : Json.IsJson (.object [("record", record c id)]) :=
    .object (List.nodup_singleton "record")
      (List.forall_mem_singleton.mpr (isJson_record fun name => (hc id name).isJson))
  refine ⟨envelope (.object [("record", record c id)]), .object [("record", record c id)],
    record c id, ?_, ?_, envelope_isEnvelope rfl, rfl, rfl⟩
  · have hreply : serve.replies c (location.get ["records", id] none) =
        written (envelope (payload c (location.get ["records", id] none))) := rfl
    rw [hreply, payload_record hid]
    exact carries_written (isJson_envelope hrecord)
  · rw [fits_envelope, Json.fits_object]
    simp [fits_record, (hc id "fldB").fits, (hc id "Note").fits]

theorem stored_put (hid : id ∈ recordIds) (name : String) (v : Value) (other name' : String) :
    stored c (location.url ["records", id]) (cellBody name v) other name' =
      if other = id ∧ name' = name then v else c other name' := by
  have hget : ((cellBody name v).get "fields").get? name' =
      if name' = name then some v else none := by
    change Value.lookup ([(name, v)].map fun x => (.text x.1, x.2)) name' = _
    rw [Content.lookup_object]
    by_cases hname : name' = name
    · rw [if_pos hname, List.lookup_cons, beq_iff_eq.mpr hname]
    · rw [if_neg hname, List.lookup_cons, beq_eq_false_iff_ne.mpr hname]
      rfl
  have hrecord : recordAt? (location.url ["records", id]) = some other ↔ other = id := by
    rw [recordAt?_url, find_recordIds hid, Option.some_inj, eq_comm]
  rw [stored, hget]
  by_cases hother : other = id
  · by_cases hname : name' = name
    · rw [if_pos (hrecord.mpr hother), if_pos hname, if_pos ⟨hother, hname⟩]
      rfl
    · rw [if_pos (hrecord.mpr hother), if_neg hname, if_neg fun h => hname h.2]
      rfl
  · rw [if_neg fun h => hother (hrecord.mp h), if_neg fun h => hother h.1]

theorem valid_stored (hc : Valid c) (hid : id ∈ recordIds) (name : String) {v : Value}
    (hv : Json.IsDocument v) :
    Valid (stored c (location.url ["records", id]) (cellBody name v)) := by
  intro other name'
  rw [stored_put hid]
  split
  · exact hv
  · exact hc other name'

theorem accepts_put (c : Cells) (id : String) (body : Value) :
    Accepts (serve.replies c (location.put id body)) := by
  refine ⟨envelope (.object []), carries_written ?_, by decide, rfl⟩
  exact isJson_envelope (.object List.nodup_nil (List.forall_mem_nil _))

theorem stores : Stores serve location 2 header recordIds (fun c => c) Valid where
  still c r _ hr := by
    rw [Server.after, serve, hr]
  header c _ := ⟨_, _, sends_fields c⟩
  sends c id hc hid := by
    refine ⟨cellsOf c id, sends_record hc hid, ?_⟩
    exact List.forall_mem_cons.mpr ⟨rfl, List.forall_mem_singleton.mpr rfl⟩
  accepts c id f v hc hid _ hv := ⟨accepts_put c id _, valid_stored hc hid f.name hv⟩
  stores c id f v _ hid _ _ other _ g _ := stored_put hid f.name v other g.name
  apart c id f v _ _ _ _ other hother :=
    congrArg (fun data => written (envelope data)) (payload_unknown hother _ c none)

/-- A text in every cell. -/
def texts : Cells := fun _ name => .text name

/-- An integer in every cell. -/
def integers (n : Int) : Cells := fun _ _ => .int n

end Swapped

/-! ### Any table -/

variable {h : Header} {l : Location} {pages : Nat} {now : Calendar.Moment} {m : Memory}

open Swapped

end TableAudit.Remote
