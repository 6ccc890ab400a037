import TableAudit.Proofs.Cell.Writable
import TableAudit.Proofs.Json.Writable
import TableAudit.Proofs.Remote.Exchange
import TableAudit.Remote.Trial

/-!
# Reading a table of a remote interface

A remote interface gives columns, records and the records of a view in pages. What is read is what
the table holds, however the lists are cut into pages. It fails if an integer in one of the replies
is too long to be read.
-/

namespace TableAudit.Remote

open TableAudit.Http Exchange

variable {service : Request → Reply} {sent : Request → Value} {now : Calendar.Moment}
variable {l : Location} {t : Content} {viewId : Value} {size : Number}
variable {view : Option (List String)} {columns : List Column} {pages : Nat} {q : RowQuery}

/-- How the lists of a table are cut into pages. -/
structure Cuts where
  fields : Paged Value
  records : Paged Value
  shown : Paged Value

/-- An interface that holds a table: it answers the requests for columns, for records, and for the
records of the view if one is asked for. -/
structure Serves (service : Request → Reply) (sent : Request → Value) (l : Location) (t : Content)
    (viewId : Value) (size : Number) (view : Option (List String)) (cuts : Cuts) : Prop where
  fields : ∀ a ∈ cuts.fields.parts, SendsPage service sent (fieldsRequest l a.token) a
  columns : List.Forall₂ (fun v f => Content.Field.SpelledBy spelling v f) cuts.fields.items
    t.fields
  records : ∀ a ∈ cuts.records.parts, SendsPage service sent (recordsRequest l size a.token) a
  entries : List.Forall₂ (Content.Entry.SpelledBy spelling t.fields) cuts.records.items t.entries
  storage : view = none → viewId = .null
  opened : view.isSome → viewId ≠ .null ∧ ∀ a ∈ cuts.shown.parts,
    SendsPage service sent (visibleRequest l (parameterText viewId) a.token) a
  shown : ∀ ids, view = some ids →
    List.Forall₂ (fun v id => v.get? "record_id" = some (.text id)) cuts.shown.items ids

/-- The requests that a reading may put. -/
def asked (l : Location) (viewId : Value) (size : Number) (view : Option (List String))
    (cuts : Cuts) : List Request :=
  cuts.fields.parts.map (fun a => fieldsRequest l a.token) ++
    cuts.records.parts.map (fun a => recordsRequest l size a.token) ++
      if view.isSome then
        cuts.shown.parts.map fun a => visibleRequest l (parameterText viewId) a.token
      else []

/-- Ask for the columns of a table and read its rows. -/
def readTable (l : Location) (pages : Nat) (viewId : Value) (size : Number) :
    TableExchange (List Column × List Row) := do
  let columns ← fields l pages
  let rows ← readRows l pages ⟨columns, viewId, size⟩
  pure (columns, rows)

/-- A trial reads the rows that are read with the columns. -/
theorem outcome_rows (tr : Trial) (pages : Nat) (viewId : Value) (size : Number) (m : Memory) :
    (outcome service now (tr.rows pages viewId size) m).1 =
      (outcome service now (readTable tr.table pages viewId size) m).1.map Prod.snd := by
  rw [Trial.rows, readTable, outcome_bind, outcome_bind]
  obtain ⟨result, m'⟩ := outcome service now (fields tr.table pages) m
  cases result with
  | error e => rfl
  | ok columns =>
      simp only [outcome_bind]
      obtain ⟨rows, m''⟩ := outcome service now (readRows tr.table pages ⟨columns, viewId, size⟩) m'
      cases rows <;> rfl

/-- A trial whose replies are those of a service comes to what an exchange with it comes to. -/
theorem hold_result {α : Type} (tr : Trial) (document : α → Value) (x : TableExchange α)
    {rest : List Reply}
    (h : tr.replies = (x.run.run tr.memory).replies service tr.now ++ rest) :
    (tr.hold document x).result = (outcome service tr.now x tr.memory).1.map document := by
  have hheld : (Talk.hold tr.now (x.run.run tr.memory) tr.replies).result =
      outcome service tr.now x tr.memory := by
    rw [h]
    exact (Talk.hold_replies _ rest).1
  rw [← hheld]
  rfl

/-! ### Questions with the columns known -/

theorem outcome_names (columns : List Column) :
    outcome service now (names l pages) (some columns) = (.ok (namesOf columns), some columns) :=
  rfl

theorem recordsOf_eq (known : Names) (items : List Value) :
    recordsOf known items = items.mapM (recordOf known) := by
  induction items with
  | nil => rfl
  | cons v items ih =>
      rw [recordsOf, List.mapM_cons, ih]
      rfl

theorem outcome_records (columns : List Column) (token : Value) :
    outcome service now (records l pages size token) (some columns) =
      (opened service (recordsRequest l size token) >>= fun data =>
        itemsOf data >>= fun items =>
          (items.mapM (recordOf (namesOf columns))).map fun records =>
            ⟨records, (data.get "has_more").isTruthy, data.get "page_token"⟩, some columns) := by
  rw [records, outcome_bind, outcome_exchange rfl]
  cases opened service (recordsRequest l size token) with
  | error e => rfl
  | ok data =>
      simp only [outcome_bind, outcome_names, outcome_lift, recordsOf_eq, ok_bind]
      cases itemsOf data with
      | error e => rfl
      | ok items =>
          simp only [ok_bind]
          cases items.mapM (recordOf (namesOf columns)) <;> rfl

/-- The answer of a table whose columns are known to a question. -/
def answerTo (service : Request → Reply) (now : Calendar.Moment) (l : Location) (pages : Nat)
    (columns : List Column) (c : TableCall) : TableReply :=
  match (outcome service now (answer l pages c) (some columns)).1 with
  | .ok reply => reply
  | .error e => .failed e

/-- The questions of a reading change nothing that is remembered. -/
theorem outcome_answer (r : Reading) :
    (outcome service now (answer l pages (r.call q)) (some columns)).2 = some columns := by
  cases r with
  | paging records token count =>
      rw [Reading.call, answer, outcome_bind, outcome_records]
      generalize (opened service (recordsRequest l q.pageSize token) >>= _) = x
      cases x <;> rfl
  | opening records => rfl
  | ordering records handle =>
      have hm : (outcome service now (visibleIds l pages (parameterText handle.id))
          (some columns)).2 = some columns :=
        outcome_pagesFrom_memory _ (fun _ => rfl) _ _ _ _
      rw [Reading.call, answer, outcome_bind]
      generalize outcome service now (visibleIds l pages (parameterText handle.id))
        (some columns) = p at hm ⊢
      obtain ⟨x, m⟩ := p
      cases x <;> exact hm

/-- Rows are read from the answers of the table. -/
theorem outcome_readFrom (bound : Nat) (r : Reading) :
    outcome service now (readFrom l pages q bound r) (some columns) =
      (Reading.against (answerTo service now l pages columns) q bound r, some columns) := by
  induction bound generalizing r with
  | zero => rfl
  | succ bound ih =>
      have hm : (outcome service now (answer l pages (r.call q)) (some columns)).2 = some columns :=
        outcome_answer r
      rw [readFrom, outcome_bind, Reading.against, answerTo]
      generalize outcome service now (answer l pages (r.call q)) (some columns) = p at hm ⊢
      obtain ⟨x, m⟩ := p
      obtain rfl : m = some columns := hm
      cases x with
      | error e => cases r <;> rfl
      | ok reply =>
          have hnote : outcome service now (note (r.line? reply)) (some columns) =
              (.ok (), some columns) := by
            cases r.line? reply <;> rfl
          simp only [outcome_bind, hnote]
          cases r.resume q reply with
          | rows rows => rfl
          | failed e => rfl
          | ask r => exact ih r

/-! ### Lists that arrive -/

variable {request : Value → Request} {p : Paged Value} {β : Type}
variable {read : List Value → Except SourceError (List β)}

/-- What a list in pages is read as, from the replies to the requests for its pages. -/
def gathered (sent : Request → Value) (request : Value → Request)
    (read : List Value → Except SourceError (List β)) (p : Paged Value) :
    Except SourceError (List β) :=
  Paged.gather (fun a => arriving sent (request a.token) a.items >>= read) p.parts

theorem arriving_fits {r : Request} (h : Json.fits (sent r) = true) (items : List Value) :
    arriving sent r items = .ok items := by
  rw [arriving, if_pos h]

/-- If all pages arrive, the list is read like one in one piece. -/
theorem gathered_fits (h : ∀ a ∈ p.parts, Json.fits (sent (request a.token)) = true)
    {item : Value → Except SourceError β} (hread : ∀ vs, read vs = vs.mapM item) :
    gathered sent request read p = p.items.mapM item := by
  have hpage : ∀ a ∈ p.parts,
      (arriving sent (request a.token) a.items >>= read) = a.items.mapM item := fun a ha => by
    rw [arriving_fits (h a ha), ok_bind, hread]
  rw [gathered, Paged.gather_mapM hpage, p.parts_items]

/-- If a page does not arrive, nothing comes of the list. -/
theorem gathered_lost (read : List Value → Except SourceError (List β)) {a : Part Value}
    (ha : a ∈ p.parts) (h : Json.fits (sent (request a.token)) = false) :
    ∃ e, gathered sent request read p = .error e := by
  have he : (arriving sent (request a.token) a.items >>= read) =
      .error (.failure (failureText (request a.token) "invalid JSON response")) := by
    rw [arriving, if_neg (by simp [h])]
    rfl
  exact Paged.gather_failed ha he

/-- A list in pages is read from the replies to the requests for its pages. -/
theorem outcome_pages (stalled : String) (hbody : ∀ token, (request token).body = none)
    (hp : ∀ a ∈ p.parts, SendsPage service sent (request a.token) a)
    (hb : p.early.length < pages) (m : Memory) :
    outcome service now (pagesFrom request read stalled pages .null []) m =
      (gathered sent request read p, m) := by
  obtain ⟨more, rfl⟩ := Nat.exists_eq_add_of_lt hb
  rw [outcome_pagesFrom stalled p.last p.early p.advances hbody hp [] m more]
  change ((gathered sent request read p).map ([] ++ ·), m) = _
  cases gathered sent request read p <;> rfl

/-! ### The whole table -/

theorem recordIdsOf_shown {items : List Value} {ids : List String}
    (h : List.Forall₂ (fun v id => v.get? "record_id" = some (.text id)) items ids) :
    recordIdsOf items = .ok ids := by
  induction h with
  | nil => rfl
  | @cons v id _ _ hv _ ih =>
      have hid : recordIdOf v = .ok id := by
        rw [recordIdOf, attribute?, if_pos (isMap_of_get? hv), Value.get, hv]
        rfl
      rw [recordIdsOf] at ih ⊢
      rw [List.mapM_cons, hid, ih]
      rfl

variable {cuts : Cuts}

theorem outcome_fields (h : Serves service sent l t viewId size view cuts)
    (hb : cuts.fields.early.length < pages) (m : Memory) :
    outcome service now (fields l pages) m =
      match gathered sent (fieldsRequest l) columnsOf cuts.fields with
      | .ok columns => (.ok columns, some columns)
      | .error e => (.error e, m) := by
  rw [fields, outcome_bind, outcome_pages _ (fun _ => rfl) h.fields hb]
  cases gathered sent (fieldsRequest l) columnsOf cuts.fields <;> rfl

theorem answer_records (h : Serves service sent l t viewId size view cuts) {a : Part Value}
    (ha : a ∈ cuts.records.parts) :
    Reading.IsPage (answerTo service now l pages columns (.records size a.token)) a.next
      (arriving sent (recordsRequest l size a.token) a.items >>= recordsOf (namesOf columns)) := by
  rw [answerTo, answer, outcome_bind, outcome_records]
  obtain ⟨data, hopened, harriving, hitems, hspelled⟩ | ⟨e, hopened, harriving⟩ :=
    (h.records a ha).cases
  · have hmore : (data.get "has_more").isTruthy = a.next.isSome := hspelled.more
    rw [hopened, harriving, ok_bind, ok_bind, hitems, ok_bind, hmore, recordsOf_eq]
    cases a.items.mapM (recordOf (namesOf columns)) with
    | error e => rfl
    | ok records =>
        refine ⟨data.get "page_token", rfl, fun next hnext => ?_⟩
        rw [Value.get]
        exact congrArg (·.getD .null) (hspelled.token next hnext)
  · rw [hopened, harriving]
    rfl

theorem answer_view (h : Serves service sent l t viewId size view cuts)
    (hb : cuts.shown.early.length < pages) :
    Reading.Orders (answerTo service now l pages columns) ⟨columns, viewId, size⟩
      (view.map fun _ => gathered sent (visibleRequest l (parameterText viewId)) recordIdsOf cuts.shown)
    := by
  cases hview : view with
  | none =>
      refine .storage ?_
      rw [Reading.hasView, h.storage hview]
  | some ids =>
      obtain ⟨hne, hparts⟩ := h.opened (by simp [hview])
      have hv : Reading.hasView ⟨columns, viewId, size⟩ = true := by
        cases viewId <;> simp_all [Reading.hasView]
      have hids : (outcome service now (answer l pages (.visibleIds ⟨viewId, true⟩))
          (some columns)).1 = (gathered sent (visibleRequest l (parameterText viewId)) recordIdsOf
            cuts.shown).map .visibleIds := by
        change (outcome service now (pagesFrom (visibleRequest l (parameterText viewId)) recordIdsOf
          "view pagination stalled" pages .null [] >>= _) _).1 = _
        rw [outcome_bind, outcome_pages _ (fun _ => rfl) hparts hb]
        cases gathered sent (visibleRequest l (parameterText viewId)) recordIdsOf cuts.shown <;> rfl
      have hopen : answerTo service now l pages columns (.view viewId) = .view ⟨viewId, true⟩ := rfl
      rw [Option.map_some]
      cases hx : gathered sent (visibleRequest l (parameterText viewId)) recordIdsOf cuts.shown with
      | error e =>
          refine .failed hv hopen ?_
          rw [answerTo, hids, hx]
          rfl
      | ok ids =>
          refine .view hv hopen ?_
          rw [answerTo, hids, hx]
          rfl

/-- Whether the bound on the requests for a list is enough for every list of a table. -/
structure Cuts.Within (cuts : Cuts) (pages : Nat) : Prop where
  fields : cuts.fields.early.length < pages
  records : cuts.records.early.length < pages
  shown : cuts.shown.early.length < pages

/-- A reading of a table asks for its columns, for its records, and for the order of the view. -/
theorem outcome_readTable (h : Serves service sent l t viewId size view cuts)
    (hb : cuts.Within pages) (m : Memory) :
    (outcome service now (readTable l pages viewId size) m).1 =
      gathered sent (fieldsRequest l) columnsOf cuts.fields >>= fun columns =>
        (gathered sent (recordsRequest l size) (recordsOf (namesOf columns)) cuts.records >>=
          fun records => Reading.ordered (view.map fun _ =>
            gathered sent (visibleRequest l (parameterText viewId)) recordIdsOf cuts.shown) records >>=
              Reading.rowsOf columns).map fun rows => (columns, rows) := by
  rw [readTable, outcome_bind, outcome_fields h hb.fields]
  cases gathered sent (fieldsRequest l) columnsOf cuts.fields with
  | error e => rfl
  | ok columns =>
      have hbound : cuts.records.early.length + 3 ≤ pages + 2 := by
        have := hb.records
        omega
      have hview : Reading.Orders (answerTo service now l pages columns)
          ⟨columns, viewId, size⟩ _ := answer_view h hb.shown
      have hrows := Reading.against_pages _ cuts.records hview (fun a ha => answer_records h ha)
        hbound
      refine Eq.trans ?_ (congrArg (Except.map fun rows => (columns, rows)) hrows)
      simp only
      rw [outcome_bind, readRows, outcome_readFrom]
      cases Reading.against (answerTo service now l pages columns) ⟨columns, viewId, size⟩
        (pages + 2) .start <;> rfl

theorem isWritable_page {r : Request} {a : Part Value} (h : SendsPage service sent r a)
    (hfits : Json.fits (sent r) = true) : ∀ v ∈ a.items, v.isWritable = true := by
  obtain ⟨response, -, -, hread⟩ := h.carried
  obtain ⟨data, he, hspelled⟩ := h.page
  rw [if_pos hfits] at hread
  have hitems : (Value.list a.items).Within (sent r) :=
    (Value.within_get? hspelled.items).trans (Value.within_get? he.payload)
  intro v hv
  exact ((Value.within_list hv).trans hitems).isWritable (Json.isWritable_readBytes hread)

/-- The cells of a record can be written if the value that spells it can. -/
theorem isWritable_cell {v : Value} {e : Content.Entry} {f : Content.Field}
    (h : e.SpelledBy spelling t.fields v) (hw : v.isWritable = true) (hf : f ∈ t.fields) :
    ((e.cell f.id).getD .null).isWritable = true := by
  obtain ⟨held, hheld, hkeyed⟩ := h.cells
  rw [← hkeyed.cell f hf, ← Content.lookup_object]
  have hcell := (Value.within_get (.object held) (spelling.key f)).trans (Value.within_get? hheld)
  exact hcell.isWritable hw

/-- If all pages of records can be read, their cells can be written. -/
theorem isLegible_served (h : Serves service sent l t viewId size view cuts)
    (hfits : ∀ a ∈ cuts.records.parts, Json.fits (sent (recordsRequest l size a.token)) = true) :
    t.IsLegible := by
  have hitems : ∀ v ∈ cuts.records.items, v.isWritable = true := by
    rw [← cuts.records.parts_items]
    intro v hv
    obtain ⟨a, ha, hv⟩ := List.mem_flatMap.mp hv
    exact isWritable_page (h.records a ha) (hfits a ha) v hv
  have hentries : ∀ e ∈ t.entries, ∀ f ∈ t.fields,
      ((e.cell f.id).getD .null).isWritable = true := by
    have hall := h.entries
    generalize cuts.records.items = items at hall hitems
    generalize t.entries = entries at hall
    induction hall with
    | nil => exact fun e he => absurd he List.not_mem_nil
    | cons hv _ ih =>
        rw [List.forall_mem_cons] at hitems ⊢
        exact ⟨fun f hf => isWritable_cell hv hitems.1 hf, ih hitems.2⟩
  intro columns hc e he c hm
  obtain ⟨f, hf, hid⟩ : ∃ f ∈ t.fields, f.id = c.id := by
    rw [← List.mem_map, ← Content.ids_of_mapM hc]
    exact List.mem_map_of_mem hm
  rw [← hid]
  exact Cell.isWritable_ofPayload (hentries e he f hf)

/-- If all replies can be read, what is read is what the table holds. -/
theorem readTable_served (h : Serves service sent l t viewId size view cuts)
    (hb : cuts.Within pages)
    (hfits : ∀ r ∈ asked l viewId size view cuts, Json.fits (sent r) = true) (m : Memory) :
    (outcome service now (readTable l pages viewId size) m).1 =
      (t.reading view).mapError .fault := by
  simp only [asked, List.forall_mem_append, List.forall_mem_map] at hfits
  obtain ⟨⟨hfields, hrecords⟩, hshown⟩ := hfits
  have hv : Content.Shows (view.map fun _ =>
      gathered sent (visibleRequest l (parameterText viewId)) recordIdsOf cuts.shown) view := by
    cases hview : view with
    | none => exact .storage
    | some ids =>
        simp only [hview, Option.isSome_some, if_true, List.forall_mem_map] at hshown
        have hread : ∀ vs, recordIdsOf vs = vs.mapM recordIdOf := fun _ => rfl
        rw [Option.map_some, gathered_fits hshown hread, ← hread,
          recordIdsOf_shown (h.shown ids hview)]
        exact .all ids
  have hread (columns : List Column) (hc : t.fields.mapM Content.Field.column = .ok columns) :
      ReadAs (List.Forall₂ (Content.Stands columns))
        (gathered sent (recordsRequest l size) (recordsOf (namesOf columns)) cuts.records)
        (t.entries.mapM Content.Entry.dated) := by
    rw [gathered_fits hrecords (recordsOf_eq _)]
    exact .mapM (h.entries.imp fun v e hv => recordOf_spelled hc hv)
  rw [outcome_readTable h hb, gathered_fits hfields columnsOf_eq, mapM_columnOf h.columns,
    ← t.reading_of_records hv hread (isLegible_served h hrecords)]

/-- The rows that a trial reads are those of the table. -/
theorem rows_served {tr : Trial} (h : Serves service sent tr.table t viewId size view cuts)
    (hb : cuts.Within pages)
    (hfits : ∀ r ∈ asked tr.table viewId size view cuts, Json.fits (sent r) = true) (m : Memory) :
    (outcome service now (tr.rows pages viewId size) m).1 =
      ((t.reading view).mapError .fault).map Prod.snd := by
  rw [outcome_rows, readTable_served h hb hfits]

/-- If a reply cannot be read, no columns and rows are. -/
theorem readTable_lost (h : Serves service sent l t viewId size view cuts)
    (hb : cuts.Within pages) {r : Request} (hr : r ∈ asked l viewId size view cuts)
    (hlost : Json.fits (sent r) = false) (m : Memory) :
    ∃ e, (outcome service now (readTable l pages viewId size) m).1 = .error e := by
  rw [outcome_readTable h hb]
  cases hcolumns : gathered sent (fieldsRequest l) columnsOf cuts.fields with
  | error e => exact ⟨e, rfl⟩
  | ok columns =>
      rw [ok_bind, map_error_iff]
      cases hrecords : gathered sent (recordsRequest l size) (recordsOf (namesOf columns))
          cuts.records with
      | error e => exact ⟨e, rfl⟩
      | ok records =>
          rw [ok_bind]
          rw [asked, List.mem_append, List.mem_append, List.mem_map, List.mem_map] at hr
          obtain (⟨a, ha, rfl⟩ | ⟨a, ha, rfl⟩) | hr := hr
          · obtain ⟨e, he⟩ := gathered_lost columnsOf ha hlost
            rw [he] at hcolumns
            cases hcolumns
          · obtain ⟨e, he⟩ := gathered_lost (recordsOf (namesOf columns)) ha hlost
            rw [he] at hrecords
            cases hrecords
          · cases view with
            | none => simp at hr
            | some ids =>
                obtain ⟨a, ha, rfl⟩ := List.mem_map.mp hr
                obtain ⟨e, he⟩ := gathered_lost recordIdsOf ha hlost
                exact ⟨e, by rw [Option.map_some, he]; rfl⟩

end TableAudit.Remote
