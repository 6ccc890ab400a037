import TableAudit.Proofs.Fault
import TableAudit.Proofs.Json.RoundTrip
import TableAudit.Proofs.Table.Content
import TableAudit.Remote.Table

/-!
# Exchanges with a service

A service answers every request by itself, whatever was asked before, so what an exchange comes to
depends on its replies to the requests. A reply carries a JSON value, unless an integer in it is
too long to be read: then the exchange fails. A list in pages is read like a list in one piece.
-/

namespace TableAudit.Http.Talk

variable {α β : Type} {service : Request → Reply} {now : Calendar.Moment}

/-- What a talk with a service comes to, while the clock stands still. -/
def answered (service : Request → Reply) (now : Calendar.Moment) : Talk α → α
  | done a => a
  | send r next => (next (service r)).answered service now
  | note _ next => next.answered service now
  | print _ next => next.answered service now
  | pause _ next => next.answered service now
  | look next => (next now).answered service now

/-- The replies of a service in the course of a talk. -/
def replies (service : Request → Reply) (now : Calendar.Moment) : Talk α → List Reply
  | done _ => []
  | send r next => service r :: (next (service r)).replies service now
  | note _ next => next.replies service now
  | print _ next => next.replies service now
  | pause _ next => next.replies service now
  | look next => (next now).replies service now

theorem answered_bind (t : Talk α) (f : α → Talk β) :
    (t >>= f).answered service now = (f (t.answered service now)).answered service now := by
  change (t.bind f).answered service now = _
  induction t with
  | done a => rfl
  | send r next ih => exact ih (service r)
  | note l next ih => exact ih
  | print s next ih => exact ih
  | pause w next ih => exact ih
  | look next ih => exact ih now

/-- Holding a talk with the replies of a service uses them up and comes to the same. -/
theorem hold_replies (t : Talk α) (rest : List Reply) :
    (hold now t (t.replies service now ++ rest)).result = t.answered service now ∧
      (hold now t (t.replies service now ++ rest)).left = rest := by
  induction t with
  | done a => exact ⟨rfl, rfl⟩
  | send r next ih => exact ih (service r)
  | note l next ih => exact ih
  | print s next ih => exact ih
  | pause w next ih => exact ih
  | look next ih => exact ih now

end TableAudit.Http.Talk

namespace TableAudit.Remote

open TableAudit.Http

variable {σ α β : Type} {service : Request → Reply} {now : Calendar.Moment} {r : Request}

namespace Exchange

/-- What an exchange with a service comes to, and what is remembered then. -/
def outcome (service : Request → Reply) (now : Calendar.Moment) (x : Exchange σ α) (m : σ) :
    Except SourceError α × σ :=
  (x.run.run m).answered service now

/-- An exchange goes on with the result, or ends with the error. -/
theorem outcome_bind (x : Exchange σ α) (f : α → Exchange σ β) (m : σ) :
    outcome service now (x >>= f) m =
      match outcome service now x m with
      | (.ok a, m') => outcome service now (f a) m'
      | (.error e, m') => (.error e, m') := by
  change Talk.answered service now ((x.run.run m) >>= fun p => _) = _
  obtain ⟨⟨result, m'⟩, hx⟩ : ∃ p, outcome service now x m = p := ⟨_, rfl⟩
  rw [Talk.answered_bind, hx]
  rw [outcome] at hx
  rw [hx]
  cases result <;> rfl

theorem outcome_lift (x : Except SourceError α) (m : Memory) :
    outcome service now (lift x) m = (x, m) := by
  cases x <;> rfl

end Exchange

open Exchange

/-- The payload of the reply to a request. -/
def opened (service : Request → Reply) (r : Request) : Except SourceError Value :=
  openReply r (service r) >>= openEnvelope r

/-- A request without a body comes to the payload of its reply. -/
theorem outcome_exchange (hr : r.body = none) (m : σ) :
    outcome service now (exchange r) m = (opened service r, m) := by
  have hs : sendable r = .ok r := by rw [sendable, hr]
  have hlift {γ : Type} (x : Except SourceError γ) :
      outcome service now (exchange.liftExcept x : Exchange σ γ) m = (x, m) := by
    cases x <;> rfl
  rw [exchange, outcome_bind, hs, hlift]
  change outcome service now (Exchange.request r >>= _) m = _
  rw [outcome_bind]
  exact hlift _

/-! ### Values on the way -/

/-- How the interface spells columns, records and pages. -/
def spelling : Spelling where
  look := Value.get?
  fieldId := "field_id"
  fieldName := "field_name"
  recordId := "record_id"
  editor := "last_modified_by"
  time := "last_modified_time"
  records := "items"
  more := "has_more"
  token := "page_token"
  key := Content.Field.name

/-- Whether a reply carries a JSON value. It is read, unless an integer in it has too many
digits. -/
def Carries (reply : Reply) (v : Value) : Prop :=
  ∃ response, reply = .ok response ∧ response.isSuccess = true ∧
    Json.readBytes? response.body = if Json.fits v then some v else none

/-- A success whose body is the JSON text of a value. -/
def written (v : Value) : Reply :=
  .ok ⟨200, Json.utf8 ((Json.write? Json.spacedAscii v).getD "")⟩

/-- A written object is carried. -/
theorem carries_written {fields : List (String × Value)} (h : Json.IsJson (.object fields)) :
    Carries (written (.object fields)) (.object fields) := by
  obtain ⟨s, hs, hread⟩ := h.readBytes true
  refine ⟨_, rfl, rfl, ?_⟩
  rw [show Json.write? Json.spacedAscii (.object fields) = some s from hs]
  exact hread

/-- An envelope of a payload: a code of zero, and the payload beside it. -/
structure IsEnvelope (envelope data : Value) : Prop where
  code : envelope.get? "code" = some (.int 0)
  payload : envelope.get? "data" = some data
  mapping : data.isMap = true

theorem isMap_of_get? {v x : Value} {key : String} (h : v.get? key = some x) : v.isMap = true := by
  cases v <;> simp_all [Value.get?, Value.isMap]

theorem openEnvelope_eq {envelope data : Value} (h : IsEnvelope envelope data) :
    openEnvelope r envelope = .ok data := by
  have hcode : (envelope.get "code").eqv (.int 0) = true := by
    rw [Value.get, h.code]
    rfl
  have hdata : envelope.get "data" = data := by
    rw [Value.get, h.payload]
    rfl
  rw [openEnvelope, if_pos (isMap_of_get? h.code), if_pos hcode, hdata]
  cases data with
  | map entries => cases entries <;> rfl
  | _ => cases h.mapping

/-- The payload arrives, unless an integer on the way is too long. -/
theorem opened_eq {envelope data : Value} (h : Carries (service r) envelope)
    (he : IsEnvelope envelope data) :
    opened service r = if Json.fits envelope then .ok data
      else .error (.failure (failureText r "invalid JSON response")) := by
  obtain ⟨response, hreply, hsuccess, hread⟩ := h
  rw [opened, hreply, openReply, if_pos hsuccess, hread]
  cases Json.fits envelope with
  | true => exact openEnvelope_eq he
  | false => rfl

theorem itemsOf_page {data : Value} {a : Part Value} (h : a.SpelledBy spelling data) :
    itemsOf data = .ok a.items := by
  have hitems : data.get "items" = .list a.items := by
    rw [Value.get]
    exact congrArg (·.getD .null) h.items
  rw [itemsOf, attribute?, if_pos (isMap_of_get? h.items), hitems, ok_bind]
  cases a.items <;> rfl

/-- Whether the reply to a request carries a page. -/
structure SendsPage (service : Request → Reply) (sent : Request → Value) (r : Request)
    (a : Part Value) : Prop where
  carried : Carries (service r) (sent r)
  page : ∃ data, IsEnvelope (sent r) data ∧ a.SpelledBy spelling data

/-- The items that arrive with the reply to a request, or that it cannot be read. -/
def arriving (sent : Request → Value) (r : Request) (items : List Value) :
    Except SourceError (List Value) :=
  if Json.fits (sent r) then .ok items
  else .error (.failure (failureText r "invalid JSON response"))

/-- The reply to a request that is answered with a page. -/
theorem SendsPage.cases {sent : Request → Value} {a : Part Value}
    (h : SendsPage service sent r a) :
    (∃ data, opened service r = .ok data ∧ arriving sent r a.items = .ok a.items ∧
        itemsOf data = .ok a.items ∧ a.SpelledBy spelling data) ∨
      ∃ e, opened service r = .error e ∧ arriving sent r a.items = .error e := by
  obtain ⟨data, he, hspelled⟩ := h.page
  rw [opened_eq h.carried he, arriving]
  split
  · exact Or.inl ⟨data, rfl, rfl, itemsOf_page hspelled, hspelled⟩
  · exact Or.inr ⟨_, rfl, rfl⟩

variable {request : Value → Request} {sent : Request → Value}
variable {read : List Value → Except SourceError (List β)}

/-- The page of a token: its payload, and the items that are read from it. -/
def pageAt (service : Request → Reply) (request : Value → Request)
    (read : List Value → Except SourceError (List β)) (token : Value) :
    Except SourceError (Value × List β) := do
  let data ← opened service (request token)
  let more ← itemsOf data >>= read
  .ok (data, more)

/-- The token that a page leads to. It leads nowhere if it promises no more, or if it gives no token
or the one at hand. -/
def leadsTo (data token : Value) : Option Value :=
  let next := data.get "page_token"
  if (data.get "has_more").isTruthy then
    if !next.isTruthy || next.eqv token then none else some next
  else none

/-- One round of a loop: a request, and then the end or the next round. -/
theorem pagesFrom_round (stalled : String) (bound : Nat) (token : Value) (found : List β) :
    pagesFrom request read stalled (bound + 1) token found = (do
      let data ← exchange (request token)
      let more ← lift (itemsOf data >>= read)
      match leadsTo data token with
      | some next => pagesFrom request read stalled bound next (found ++ more)
      | none =>
        if (data.get "has_more").isTruthy then Exchange.fail stalled
        else pure (found ++ more)) := by
  have hlift : ∀ data (k : List β → TableExchange (List β)),
      (lift (itemsOf data) >>= fun items => lift (read items) >>= k) =
        lift (itemsOf data >>= read) >>= k := fun data k => by cases itemsOf data <;> rfl
  rw [pagesFrom]
  congr 1
  funext data
  rw [hlift]
  cases itemsOf data >>= read with
  | error e => rfl
  | ok more =>
      simp only [leadsTo]
      split
      · split <;> rfl
      · rfl

theorem outcome_round {token : Value} (hbody : (request token).body = none) (stalled : String)
    (found : List β) (m : Memory) (bound : Nat) :
    outcome service now (pagesFrom request read stalled (bound + 1) token found) m =
      match pageAt service request read token with
      | .error e => (.error e, m)
      | .ok (data, more) =>
        match leadsTo data token with
        | some next =>
          outcome service now (pagesFrom request read stalled bound next (found ++ more)) m
        | none =>
          if (data.get "has_more").isTruthy then (.error (.failure stalled), m)
          else (.ok (found ++ more), m) := by
  rw [pagesFrom_round, outcome_bind, outcome_exchange hbody, pageAt]
  cases opened service (request token) with
  | error e => rfl
  | ok data =>
      simp only [outcome_bind, outcome_lift, ok_bind]
      cases itemsOf data >>= read with
      | error e => rfl
      | ok more =>
          simp only [ok_bind]
          cases leadsTo data token with
          | some next => rfl
          | none =>
              simp only
              split <;> rfl

/-- A page is asked for, and then the next one if there is one. -/
theorem outcome_page (stalled : String) {a : Part Value} {token : Value}
    (h : SendsPage service sent (request token) a) (hbody : (request token).body = none)
    (hleads : ∀ next, a.next = some next →
      (!(Value.text next).isTruthy || (Value.text next).eqv token) = false)
    (found : List β) (m : Memory) (bound : Nat) :
    outcome service now (pagesFrom request read stalled (bound + 1) token found) m =
      match arriving sent (request token) a.items >>= read with
      | .error e => (.error e, m)
      | .ok more =>
        match a.next with
        | none => (.ok (found ++ more), m)
        | some next =>
          outcome service now (pagesFrom request read stalled bound (.text next) (found ++ more)) m
    := by
  rw [outcome_round hbody, pageAt]
  obtain ⟨data, hopened, harriving, hitems, hspelled⟩ | ⟨e, hopened, harriving⟩ := h.cases
  · rw [hopened, harriving, ok_bind, ok_bind, hitems, ok_bind]
    cases read a.items with
    | error e => rfl
    | ok more =>
        have hmore : (data.get "has_more").isTruthy = a.next.isSome := hspelled.more
        simp only [ok_bind, leadsTo, hmore]
        cases hnext : a.next with
        | none => rfl
        | some next =>
            have htoken : data.get "page_token" = .text next := by
              rw [Value.get]
              exact congrArg (·.getD .null) (hspelled.token next hnext)
            simp only [Option.isSome_some, if_true, htoken, hleads next hnext,
              Bool.false_eq_true, if_false]
  · rw [hopened, harriving]
    rfl

/-- A list in pages is asked for page by page. -/
theorem outcome_pagesFrom (stalled : String) (last : List Value)
    (early : List (List Value × String)) {token : Value} (ht : Paged.Advances token early)
    (hbody : ∀ token, (request token).body = none)
    (hp : ∀ a ∈ Paged.partsFrom last token early, SendsPage service sent (request a.token) a)
    (found : List β) (m : Memory) (more : Nat) :
    outcome service now (pagesFrom request read stalled (early.length + more + 1) token found) m =
      ((Paged.gather (fun a => arriving sent (request a.token) a.items >>= read)
        (Paged.partsFrom last token early)).map (found ++ ·), m) := by
  induction early generalizing token found with
  | nil =>
      rw [Paged.partsFrom, Paged.gather, Paged.gather,
        outcome_page stalled (hp ⟨token, last, none⟩ (by simp [Paged.partsFrom]))
          (hbody token)
          (fun next hnext => by simp at hnext)]
      cases arriving sent (request token) last >>= read with
      | error e => rfl
      | ok items =>
          change _ = (Except.ok (found ++ (items ++ [])), m)
          rw [List.append_nil]
  | cons page rest ih =>
      obtain ⟨items, next⟩ := page
      rw [Paged.partsFrom, List.forall_mem_cons] at hp
      rw [Paged.partsFrom, Paged.gather, List.length_cons, Nat.add_right_comm _ 1 more,
        outcome_page stalled hp.1 (hbody token) (fun s hs => by
          obtain rfl := Option.some.inj hs
          exact ht.leads)]
      cases arriving sent (request token) items >>= read with
      | error e => rfl
      | ok items =>
          simp only
          rw [ih ht.later hp.2]
          cases Paged.gather _ (Paged.partsFrom last (.text next) rest) with
          | error e => rfl
          | ok others =>
              change (Except.ok (found ++ items ++ others), m) =
                (Except.ok (found ++ (items ++ others)), m)
              rw [List.append_assoc]

/-- Asking for a list in pages changes nothing that is remembered. -/
theorem outcome_pagesFrom_memory (stalled : String) (hbody : ∀ token, (request token).body = none)
    (bound : Nat) (token : Value) (found : List β) (m : Memory) :
    (outcome service now (pagesFrom request read stalled bound token found) m).2 = m := by
  induction bound generalizing token found with
  | zero => rfl
  | succ bound ih =>
      rw [outcome_round (hbody token)]
      cases pageAt service request read token with
      | error e => rfl
      | ok page =>
          simp only
          cases leadsTo page.1 token with
          | some next => exact ih next _
          | none =>
              simp only
              split <;> rfl

end TableAudit.Remote

/-!
## Columns and records of a remote interface

A remote interface spells columns and records with cells by the names of columns. They are read as
the columns and records of the table: a name is taken for the identifier of its column, and for no
other.
-/

namespace TableAudit.Remote

variable {v : Value} {columns : List Column} {f : Content.Field} {e : Content.Entry}
variable {fields : List Content.Field}

/-! ### Columns -/

theorem idText_eq {name text : String} (h : v.get? name = some (.text text)) :
    idText v name = text := by
  rw [idText, h]
  rfl

theorem columnOf_spelled (h : f.SpelledBy spelling v) :
    columnOf v = f.column.mapError .fault := by
  have htype : v.get "type" = f.type := h.type
  have hdescription : v.get "description" = f.description := h.description
  have hproperty : v.get "property" = f.property := h.property
  have hid : idText v "field_id" = f.id := idText_eq h.id
  have hname : idText v "field_name" = f.name := idText_eq h.name
  rw [columnOf, if_pos (isMap_of_get? h.id), Content.Field.column, htype, hdescription, hproperty,
    hid, hname]
  cases ColumnType.ofCode f.type <;> rfl

theorem columnsOf_eq (items : List Value) : columnsOf items = items.mapM columnOf := by
  induction items with
  | nil => rfl
  | cons v items ih =>
      rw [columnsOf, List.mapM_cons, ih]
      rfl

/-- The columns that are read are those of the table. -/
theorem mapM_columnOf {items : List Value}
    (h : List.Forall₂ (fun v f => Content.Field.SpelledBy spelling v f) items fields) :
    items.mapM columnOf = (fields.mapM Content.Field.column).mapError .fault := by
  have hread := ReadAs.mapM (h.imp fun v f hv => ReadAs.of_eq (columnOf_spelled hv))
  rw [List.forall₂_eq_eq_eq] at hread
  exact hread.eq

/-! ### Names of columns -/

theorem enterName_eq (names : Names) (name id : String) :
    enterName names name id = Row.setCell names name id := by
  induction names with
  | nil => rfl
  | cons n names ih => rw [enterName, Row.setCell, ih]

/-- Of columns with different names each is entered, in their order. -/
theorem namesOf_eq (h : (columns.map Column.name).Nodup) :
    namesOf columns = columns.map fun c => (c.name, c.id) := by
  simp only [namesOf, enterName_eq]
  rw [Content.foldl_setCell Column.name Column.id [] (by simpa using h)]
  rfl

/-- A name is looked up as the identifier of its column. -/
theorem lookup_namesOf {t : Content} (hc : t.fields.mapM Content.Field.column = .ok columns)
    (hf : f ∈ t.fields) : (namesOf columns).lookup f.name = some f.id := by
  have hswap := congrArg (List.map Prod.swap) (Content.columns_of_mapM hc)
  rw [List.map_map, List.map_map] at hswap
  rw [namesOf_eq (Content.names_of_mapM hc ▸ t.names)]
  change (columns.map (Prod.swap ∘ fun c => (c.id, c.name))).lookup f.name = _
  rw [hswap]
  have hnames : ((t.fields.map fun f => (f.name, f.id)).map Prod.fst).Nodup := by
    rw [List.map_map]
    exact t.names
  exact Json.lookup_of_nodup hnames (List.mem_map_of_mem hf)

/-! ### Records -/

/-- The identifier that a key of a cell stands for. -/
def idOf (names : Names) (key : String) : String :=
  (names.lookup key).getD key

/-- Cells whose keys stand for different columns are entered as they come. -/
theorem cellsOf_object {names : Names} {held : List (String × Value)}
    (h : ((held.map Prod.fst).map (idOf names)).Nodup) :
    cellsOf names (.object held) =
      .ok ((held.map fun x => (idOf names x.1, x.2)).map fun x => (.text x.1, x.2)) := by
  have hdistinct : ((held.map fun x => (idOf names x.1, x.2)).map Prod.fst).Nodup := by
    rw [List.map_map] at h ⊢
    exact h
  have hpairs := Json.ofPairs_entries hdistinct
  cases held with
  | nil => rfl
  | cons x held =>
      refine Eq.trans ?_ (congrArg Except.ok hpairs)
      rw [Value.object, cellsOf, if_pos (by rfl), List.map_map, List.map_map]
      rfl

theorem lookup_renamed {rename : String → String} {held : List (String × Value)} {name : String}
    (h : ∀ other ∈ held.map Prod.fst, rename other = rename name → other = name) :
    (held.map fun x => (rename x.1, x.2)).lookup (rename name) = held.lookup name := by
  induction held with
  | nil => rfl
  | cons x held ih =>
      rw [List.map_cons, List.forall_mem_cons] at h
      rw [List.map_cons, List.lookup_cons, List.lookup_cons, ih h.2]
      by_cases hx : x.1 = name
      · rw [hx, beq_self_eq_true, beq_self_eq_true]
      · have hne : rename x.1 ≠ rename name := fun he => hx (h.1 he)
        rw [beq_eq_false_iff_ne.mpr (Ne.symm hx), beq_eq_false_iff_ne.mpr (Ne.symm hne)]

theorem changeTime_spelled (e : Content.Entry) :
    changeTime (changeValue e.time) = e.changed.mapError .fault := by
  rw [Content.Entry.changed]
  cases e.time with
  | none => rfl
  | some n =>
      cases n with
      | int n => rfl
      | float x =>
          cases x with
          | nan => rfl
          | infinity => rfl
          | finite s m e =>
              simp only [changeValue, Value.ofOption, Number.toValue, changeTime, Number.whole]
              split <;> simp_all [Except.map, Except.mapError]

/-- Keys of cells that are names of columns are taken for their identifiers. -/
theorem keyed_renamed {t : Content} (hc : t.fields.mapM Content.Field.column = .ok columns)
    {cell : String → Option Value} {held : List (String × Value)}
    (h : Content.Keyed Content.Field.name t.fields cell held) :
    Content.Keyed Content.Field.id t.fields cell
      (held.map fun x => (idOf (namesOf columns) x.1, x.2)) := by
  have hid (f : Content.Field) (hf : f ∈ t.fields) : idOf (namesOf columns) f.name = f.id := by
    rw [idOf, lookup_namesOf hc hf]
    rfl
  have hsame (f : Content.Field) (hf : f ∈ t.fields) (other : String)
      (ho : other ∈ held.map Prod.fst)
      (he : idOf (namesOf columns) other = idOf (namesOf columns) f.name) : other = f.name := by
    obtain ⟨g, hg, rfl⟩ := h.known other ho
    rw [hid f hf, hid g hg] at he
    rw [List.inj_on_of_nodup_map t.ids hg hf he]
  have hfst : (held.map fun x => (idOf (namesOf columns) x.1, x.2)).map Prod.fst =
      (held.map Prod.fst).map (idOf (namesOf columns)) := by
    rw [List.map_map, List.map_map]
    rfl
  refine ⟨?_, fun name hn => ?_, fun f hf => ?_⟩
  · rw [hfst]
    refine h.once.map_on fun x hx y hy he => ?_
    obtain ⟨f, hf, rfl⟩ := h.known y hy
    exact hsame f hf x hx he
  · rw [hfst, List.mem_map] at hn
    obtain ⟨key, hkey, rfl⟩ := hn
    obtain ⟨f, hf, rfl⟩ := h.known key hkey
    exact ⟨f, hf, (hid f hf).symm⟩
  · rw [← h.cell f hf, ← hid f hf]
    exact lookup_renamed (hsame f hf)

/-- What a record of the interface is read as. -/
theorem recordOf_spelled {t : Content} (hc : t.fields.mapM Content.Field.column = .ok columns)
    (h : e.SpelledBy spelling t.fields v) :
    ReadAs (Content.Stands columns) (recordOf (namesOf columns) v) e.dated := by
  obtain ⟨held, hheld, hkeyed⟩ := h.cells
  have hrenamed := keyed_renamed hc hkeyed
  have hfields : attribute? v "fields" = .ok (.object held) := by
    rw [attribute?, if_pos (isMap_of_get? h.id), Value.get]
    exact congrArg (fun x => Except.ok (x.getD .null)) hheld
  have htime : v.get "last_modified_time" = changeValue e.time := h.time
  have heditor : personId (v.get "last_modified_by") = e.editor.filter (· ≠ "") := by
    have hid : (v.get "last_modified_by").get "id" = .ofOption .text e.editor := h.editor
    rw [personId, hid]
    exact Content.ofOption_text e.editor
  have hid : (v.get "record_id").plain = e.id := by
    have hrecord : v.get? "record_id" = some (.text e.id) := h.id
    rw [Value.get, hrecord]
    rfl
  have honce : ((held.map Prod.fst).map (idOf (namesOf columns))).Nodup := by
    have h := hrenamed.once
    rwa [List.map_map] at h ⊢
  have hcells (f : Content.Field) (hf : f ∈ t.fields) :
      Value.lookup ((held.map fun x => (idOf (namesOf columns) x.1, x.2)).map
        fun x => (.text x.1, x.2)) f.id = e.cell f.id := by
    rw [Content.lookup_object]
    exact hrenamed.cell f hf
  have hmade := Content.readAs_made e hcells (Content.ids_of_mapM hc)
  rw [recordOf, hfields, htime, heditor, hid, ok_bind, cellsOf_object honce, changeTime_spelled,
    ok_bind]
  cases hchanged : e.changed <;> rw [hchanged] at hmade <;> exact hmade

end TableAudit.Remote
