import TableAudit.Command.Audit
import TableAudit.Proofs.Embedded.Soundness
import TableAudit.Proofs.Json.Documents
import TableAudit.Proofs.Remote.Soundness
import TableAudit.Proofs.Source.Spelled

/-!
# Interchangeable sources

A host and a remote interface that hold the same table may be exchanged for each other: the same
columns and rows are read from both, in the same order, however each of them cuts its lists into
pages. A remote interface that sends an integer with more digits than are read makes the exception.
Nothing is read from it then.
-/

namespace TableAudit

open Http Remote.Exchange

/-! ### A table of notes -/

namespace Notes

/-- The cells of the first note: a text with an attribute, and a number. -/
def firstCell (n : Int) (id : String) : Option Value :=
  if id = "fld1" then
    some (.list [.object [("type", .text "text"), ("text", .text "a"), ("size", .int n)]])
  else if id = "fld2" then some (.int 7)
  else none

/-- The cells of the second note: nothing in the first column, none in the second. -/
def secondCell (id : String) : Option Value :=
  if id = "fld1" then some .null else none

/-- The first note. -/
def first (n : Int) : Content.Entry :=
  ⟨"rec1", firstCell n, some "ou1", some (.int 1700000000000)⟩

/-- The second note. -/
def second : Content.Entry :=
  ⟨"rec2", secondCell, none, none⟩

/-- A table of two notes. An attribute of the text of the first one is any integer. -/
def table (n : Int) : Content where
  fields := [⟨"fld1", "Title", .int 1, .null, .null⟩, ⟨"fld2", "Count", .int 2, .null, .null⟩]
  entries := [first n, second]
  ids := by decide
  names := by decide
  recordIds := (by decide : ["rec1", "rec2"].Nodup)
  filled := by simp [first, second]

/-- The notes in the order of a view. -/
def view : Option (List String) :=
  some ["rec2", "rec1"]

/-- The host gives one note on each page. -/
def listed (n : Int) : Paged Value where
  early := [([(first n).spell Embedded.spelling (table n).fields], "next")]
  last := [second.spell Embedded.spelling (table n).fields]
  filled := (by decide : "" ∉ ["next"])
  distinct := (by decide : ["next"].Nodup)

/-- What the host of the notes gives. -/
def script (n : Int) : Embedded.Script :=
  [("getFieldMetaList", .reply (.value (.list ((table n).fields.map
      (Content.Field.spell Embedded.spelling))))),
    ("getRecords", .byToken ((listed n).parts.map fun a =>
      (a.token.plain, .value (a.spell Embedded.spelling)))),
    ("getViewById", .reply .host),
    ("getVisibleRecordIdList", .reply (.value (.list [.text "rec2", .text "rec1"])))]

theorem hosts (n : Int) : Embedded.Hosts (script n).reply (table n) (.text "v") (.int 1) view
    ((table n).fields.map (Content.Field.spell Embedded.spelling)) (listed n) where
  columns := rfl
  fields := .cons (Embedded.field_spelled _) (.cons (Embedded.field_spelled _) .nil)
  served a ha := by
    have hserved : ∀ a ∈ (listed n).parts,
        (script n).reply (Embedded.callFor (.records (.int 1) a.token)) =
          .value (a.spell Embedded.spelling) := by
      refine List.forall_mem_cons.mpr ⟨rfl, List.forall_mem_singleton.mpr rfl⟩
    exact ⟨_, hserved a ha, Embedded.part_spelled a⟩
  entries := .cons (Embedded.entry_spelled _ (table n).ids)
    (.cons (Embedded.entry_spelled _ (table n).ids) .nil)
  storage h := by cases h
  opened _ := ⟨Value.noConfusion, rfl⟩
  shown ids h := by
    cases h
    rfl

/-- The interface gives both notes on one page, and one visible record on each page. -/
def cuts (n : Int) : Remote.Cuts where
  fields := ⟨[], (table n).fields.map (Content.Field.spell Remote.spelling), by simp, by simp⟩
  records := ⟨[], (table n).entries.map (Content.Entry.spell Remote.spelling (table n).fields),
    by simp, by simp⟩
  shown := ⟨[([Remote.spellId "rec2"], "next")], [Remote.spellId "rec1"], by decide, by decide⟩

/-- Where the notes are. -/
def location : Remote.Location :=
  ⟨Remote.usualBaseUrl, "app1", "tbl1", none⟩

/-- The page that a request asks for. -/
def pageFor (n : Int) (r : Request) : Part Value :=
  let parameters := r.parameters.getD []
  if (parameters.lookup "automatic_fields").isSome then ⟨.null, (cuts n).records.last, none⟩
  else if (parameters.lookup "view_id").isSome then
    if (parameters.lookup "page_token").isSome then ⟨.text "next", (cuts n).shown.last, none⟩
    else ⟨.null, [Remote.spellId "rec2"], some "next"⟩
  else ⟨.null, (cuts n).fields.last, none⟩

/-- What the interface sends. -/
def sent (n : Int) (r : Request) : Value :=
  Remote.envelope ((pageFor n r).spell Remote.spelling)

theorem isJson_first (n : Int) :
    Json.IsJson ((first n).spell Remote.spelling (table n).fields) := by
  have hkeys : ["type", "text", "size"].Nodup := by decide
  refine Remote.isJson_entry (table n).names (List.forall_mem_cons.mpr
    ⟨fun v hv => ?_, List.forall_mem_singleton.mpr fun v hv => ?_⟩) (fun x hx => by cases hx)
  · cases hv
    exact .list (List.forall_mem_singleton.mpr
      (.object hkeys (List.forall_iff_forall_mem.mp ⟨.text _, .text _, .int n⟩)))
  · cases hv
    exact .int 7

theorem isJson_second (n : Int) :
    Json.IsJson (second.spell Remote.spelling (table n).fields) := by
  refine Remote.isJson_entry (table n).names (List.forall_mem_cons.mpr
    ⟨fun v hv => ?_, List.forall_mem_singleton.mpr fun v hv => ?_⟩) (fun x hx => by cases hx)
  · cases hv
    exact .null
  · cases hv

theorem serves (n : Int) : Remote.Serves (fun r => Remote.written (sent n r)) (sent n) location
    (table n) (.text "v") (.int 100) view (cuts n) where
  fields := by
    refine List.forall_mem_singleton.mpr (Remote.sendsPage_written rfl rfl ?_)
    exact List.forall_iff_forall_mem.mp
      ⟨Remote.isJson_field (.int _) .null .null, Remote.isJson_field (.int _) .null .null⟩
  columns := .cons (Remote.field_spelled _) (.cons (Remote.field_spelled _) .nil)
  records := by
    refine List.forall_mem_singleton.mpr (Remote.sendsPage_written rfl rfl ?_)
    exact List.forall_iff_forall_mem.mp ⟨isJson_first n, isJson_second n⟩
  entries := .cons (Remote.entry_spelled _ (table n).names)
    (.cons (Remote.entry_spelled _ (table n).names) .nil)
  storage h := by cases h
  opened _ := by
    refine ⟨by simp, List.forall_mem_cons.mpr ⟨?_, List.forall_mem_singleton.mpr ?_⟩⟩
    · exact Remote.sendsPage_written rfl rfl
        (List.forall_mem_singleton.mpr (Remote.isJson_spellId _))
    · exact Remote.sendsPage_written rfl rfl
        (List.forall_mem_singleton.mpr (Remote.isJson_spellId _))
  shown ids h := by
    cases h
    exact .cons rfl (.cons rfl .nil)

theorem within (n : Int) : (cuts n).Within 2 :=
  ⟨by simp [cuts], by simp [cuts], by simp [cuts]⟩

/-- The columns and rows to be read. -/
def shown : List Column × List Row :=
  ([⟨"fld1", "Title", .text, .null, .map []⟩, ⟨"fld2", "Count", .number, .null, .map []⟩],
    [⟨1, "rec2", [("fld1", ""), ("fld2", "")], none, none⟩,
      ⟨2, "rec1", [("fld1", "a"), ("fld2", "7")], some "ou1", some (.int 1700000000000)⟩])

theorem reading_view (n : Int) : (table n).reading view = .ok shown :=
  rfl

/-- The attribute is no part of a cell's text. -/
theorem isLegible (n : Int) : (table n).IsLegible := by
  intro columns hc
  cases hc
  refine List.forall_mem_cons.mpr ⟨?_, List.forall_mem_singleton.mpr ?_⟩ <;>
    exact List.forall_mem_cons.mpr ⟨rfl, List.forall_mem_singleton.mpr rfl⟩

/-- The page of records arrives if the integer in it is short enough. -/
theorem fits_records (n : Int) :
    Json.fits (sent n (Remote.recordsRequest location (.int 100) .null)) = Json.fits (.int n) := by
  have hpage : pageFor n (Remote.recordsRequest location (.int 100) .null) =
      ⟨.null, [(first n).spell Remote.spelling (table n).fields,
        second.spell Remote.spelling (table n).fields], none⟩ := rfl
  have hcount : (Nat.toDigits 10 7).length ≤ Json.digitLimit := by decide
  have htime : (Nat.toDigits 10 1700000000000).length ≤ Json.digitLimit := by decide
  rw [sent, Remote.fits_envelope, hpage, Remote.fits_part]
  simp [Content.Entry.spell, Content.Entry.held, Value.object, Value.ofOption, changeValue,
    Number.toValue, Json.fits, Json.allFit, Json.entriesFit, table, first, second, firstCell,
    secondCell, hcount, htime]

end Notes

/-! ### Any table -/

variable {t : Content} {view : Option (List String)} {viewId : Value}
variable {bridge : Embedded.BridgeCall → Embedded.BridgeReply} {metas : List Value}
variable {listed : Paged Value} {size size' : Number} {bound pages : Nat}
variable {service : Request → Reply} {sent : Request → Value} {l : Remote.Location}
variable {cuts : Remote.Cuts}

end TableAudit

/-!
## Sound sources

A source answers soundly whatever is on the other side, as long as what arrives has the expected
shape. That shape is not looked after: a payload of another one leads to an error that nobody is
prepared for, and a run of the command line breaks off with it.
-/

namespace TableAudit

open TableAudit.Http Remote

section

variable {l : Location} {now : Calendar.Moment} {replies : List Reply} {pages : Nat}
variable {s : Settings} {e : SourceError}

/-- How a run ends whose table could not be read: only a failure with a message makes an exit
code. -/
def endingOf : SourceError → Command.Ending
  | .failure _ => .done .failed
  | .fault f => .broken (.fault f)
  | .unfinished => .broken .unfinished

theorem audit_ended (o : Command.Options) (hl : Command.locationOf s.remote = .ok l)
    (h : (Exchange.held now (Command.fetch l pages s) none replies).1 = .error e) :
    (Talk.ended now (Command.audit pages o s) replies).1 = endingOf e := by
  rw [Command.audit, hl]
  change (Talk.ended now ((Command.fetch l pages s).run.run none >>= fun p => _) replies).1 = _
  rw [Exchange.held] at h
  rw [Talk.ended_bind]
  generalize Talk.ended now ((Command.fetch l pages s).run.run none) replies = p at h ⊢
  obtain ⟨⟨result, m⟩, rest⟩ := p
  obtain rfl : result = .error e := h
  cases e <;> rfl

/-- A table is not read if its columns are not. -/
theorem fetch_error (h : (Exchange.held now (fields l pages) none replies).1 = .error e) :
    (Exchange.held now (Command.fetch l pages s) none replies).1 = .error e := by
  rw [Command.fetch, Exchange.held_bind]
  generalize Exchange.held now (fields l pages) none replies = p at h ⊢
  obtain ⟨result, m, rest⟩ := p
  obtain rfl : result = .error e := h
  rfl

end

/-! ### Payloads of other shapes -/

namespace Misshapen

/-- A page of columns on which a number stands for a column. -/
def page : Value :=
  Part.spell spelling ⟨.null, [.int 1], none⟩

/-- The reply with the page. -/
def reply : Reply :=
  written (envelope page)

def location : Location :=
  ⟨usualBaseUrl, "", "", some "Bearer "⟩

theorem payloadOf_reply (r : Request) : payloadOf r reply = .ok page := by
  have hsends : SendsPage (fun _ => reply) (fun _ => envelope page) r ⟨.null, [.int 1], none⟩ :=
    sendsPage_written rfl rfl (List.forall_mem_singleton.mpr (.int 1))
  have hfits : Json.fits (envelope page) = true := by
    rw [fits_envelope, page, fits_part]
    decide
  have hopened : opened (fun _ => reply) r = .ok page := by
    rw [opened_eq hsends.carried (envelope_isEnvelope rfl), if_pos hfits]
  exact hopened

theorem held_fields_reply :
    (Exchange.held default (fields location 2) none [reply]).1 = .error (.fault .noAttribute) := by
  rw [held_fields, held_round rfl, nextReply_cons, payloadOf_reply]
  rfl

end Misshapen

open Misshapen

end TableAudit
