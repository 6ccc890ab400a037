import TableAudit.Proofs.Embedded.Reading
import TableAudit.Proofs.Json.Documents
import TableAudit.Proofs.Remote.Reading

/-!
# Tables that are spelled out

What a table holds, as the values that a host or a remote interface would give for it. Every table
can be spelled out in either way, and what a remote interface spells out is JSON if the cells are.
-/

namespace TableAudit

namespace Content

variable {s : Spelling} {fields : List Field}

/-- A column as a mapping. -/
def Field.spell (s : Spelling) (f : Field) : Value :=
  .object [(s.fieldId, .text f.id), (s.fieldName, .text f.name), ("type", f.type),
    ("description", f.description), ("property", f.property)]

/-- The cells of a record by the keys of columns, in the order of these. -/
def Entry.held (key : Field → String) (fields : List Field) (e : Entry) : List (String × Value) :=
  fields.filterMap fun f => (e.cell f.id).map fun v => (key f, v)

/-- A record as a mapping. -/
def Entry.spell (s : Spelling) (fields : List Field) (e : Entry) : Value :=
  .object [(s.recordId, .text e.id), ("fields", .object (e.held s.key fields)),
    (s.editor, .object [("id", .ofOption .text e.editor)]), (s.time, changeValue e.time)]

theorem keys_held (key : Field → String) (fields : List Field) (e : Entry) :
    ((e.held key fields).map Prod.fst).Sublist (fields.map key) := by
  induction fields with
  | nil => exact .slnil
  | cons f fields ih =>
      rw [Entry.held, List.filterMap_cons]
      cases e.cell f.id with
      | none => exact ih.cons _
      | some v => exact ih.cons_cons _

theorem lookup_held {key : Field → String} {f : Field} (e : Entry)
    (h : (fields.map key).Nodup) (hf : f ∈ fields) :
    (e.held key fields).lookup (key f) = e.cell f.id := by
  induction fields with
  | nil => simp at hf
  | cons g fields ih =>
      rw [List.map_cons, List.nodup_cons] at h
      obtain rfl | hmem := List.mem_cons.mp hf
      · have hnone : (e.held key fields).lookup (key f) = none := by
          rw [List.lookup_eq_none_iff]
          intro x hx
          have hkey := (keys_held key fields e).subset (List.mem_map_of_mem hx)
          exact bne_iff_ne.mpr fun he => h.1 (he ▸ hkey)
        cases hcell : e.cell f.id with
        | none => simpa [Entry.held, hcell] using hnone
        | some v => simp [Entry.held, hcell]
      · have hne : key f ≠ key g := fun he => h.1 (he ▸ List.mem_map_of_mem hmem)
        have hrest := ih h.2 hmem
        cases hcell : e.cell g.id with
        | none => simpa [Entry.held, hcell] using hrest
        | some v =>
            simpa [Entry.held, hcell, List.lookup_cons, beq_eq_false_iff_ne.mpr hne] using hrest

/-- The cells of a record go by the keys of columns if no two columns have the same. -/
theorem keyed_held {key : Field → String} (e : Entry) (h : (fields.map key).Nodup) :
    Keyed key fields e.cell (e.held key fields) where
  once := h.sublist (keys_held key fields e)
  known name hname := by
    obtain ⟨f, hf, hkey⟩ := List.mem_map.mp ((keys_held key fields e).subset hname)
    exact ⟨f, hf, hkey⟩
  cell f hf := lookup_held e h hf

end Content

/-- A page as a mapping. -/
def Part.spell (s : Spelling) (a : Part Value) : Value :=
  .object ((s.records, .list a.items) :: (s.more, .bool a.next.isSome) ::
    a.next.toList.map fun next => (s.token, .text next))

/-! ### What a host gives -/

namespace Embedded

variable {fields : List Content.Field}

theorem field_spelled (f : Content.Field) : f.SpelledBy spelling (f.spell spelling) :=
  ⟨rfl, rfl, rfl, rfl, rfl⟩

theorem entry_spelled (e : Content.Entry) (h : (fields.map Content.Field.id).Nodup) :
    e.SpelledBy spelling fields (e.spell spelling fields) :=
  ⟨rfl, ⟨_, rfl, Content.keyed_held e h⟩, rfl, rfl⟩

theorem part_spelled (a : Part Value) : a.SpelledBy spelling (a.spell spelling) := by
  refine ⟨rfl, rfl, fun next hnext => ?_⟩
  rw [Part.spell, hnext]
  rfl

end Embedded

/-! ### What a remote interface gives -/

namespace Remote

variable {fields : List Content.Field} {data : Value}

theorem field_spelled (f : Content.Field) : f.SpelledBy spelling (f.spell spelling) :=
  ⟨rfl, rfl, rfl, rfl, rfl⟩

theorem entry_spelled (e : Content.Entry) (h : (fields.map Content.Field.name).Nodup) :
    e.SpelledBy spelling fields (e.spell spelling fields) :=
  ⟨rfl, ⟨_, rfl, Content.keyed_held e h⟩, rfl, rfl⟩

theorem part_spelled (a : Part Value) : a.SpelledBy spelling (a.spell spelling) := by
  refine ⟨rfl, rfl, fun next hnext => ?_⟩
  rw [Part.spell, hnext]
  rfl

/-- The identifier of a visible record as a mapping. -/
def spellId (id : String) : Value :=
  .object [("record_id", .text id)]

/-- The envelope of a payload. -/
def envelope (data : Value) : Value :=
  .object [("code", .int 0), ("data", data)]

theorem envelope_isEnvelope (h : data.isMap = true) : IsEnvelope (envelope data) data :=
  ⟨rfl, rfl, h⟩

/-! What is JSON. -/

theorem isJson_changeValue {time : Option Number}
    (h : ∀ x, time = some (.float x) → x.IsDouble) : Json.IsJson (changeValue time) := by
  cases time with
  | none => exact .null
  | some n =>
      cases n with
      | int n => exact .int n
      | float x => exact .float (h x rfl)

theorem isJson_field {f : Content.Field} (ht : Json.IsJson f.type) (hd : Json.IsJson f.description)
    (hp : Json.IsJson f.property) : Json.IsJson (f.spell spelling) := by
  have hkeys : ["field_id", "field_name", "type", "description", "property"].Nodup := by decide
  exact .object hkeys (List.forall_iff_forall_mem.mp ⟨.text _, .text _, ht, hd, hp⟩)

theorem isJson_entry {e : Content.Entry} (hf : (fields.map Content.Field.name).Nodup)
    (hc : ∀ f ∈ fields, ∀ v, e.cell f.id = some v → Json.IsJson v)
    (ht : ∀ x, e.time = some (.float x) → x.IsDouble) :
    Json.IsJson (e.spell spelling fields) := by
  have hkeys : ["record_id", "fields", "last_modified_by", "last_modified_time"].Nodup := by decide
  have hcells : Json.IsJson (.object (e.held spelling.key fields)) := by
    refine .object (hf.sublist (Content.keys_held _ _ e)) fun x hx => ?_
    obtain ⟨f, hf, hx⟩ := List.mem_filterMap.mp hx
    obtain ⟨v, hv, rfl⟩ := Option.map_eq_some_iff.mp hx
    exact hc f hf v hv
  have heditor : Json.IsJson (.ofOption .text e.editor) := by
    cases e.editor with
    | none => exact .null
    | some id => exact .text id
  exact .object hkeys (List.forall_iff_forall_mem.mp ⟨.text _, hcells,
    .object (List.nodup_singleton "id") (List.forall_iff_forall_mem.mp heditor),
    isJson_changeValue ht⟩)

theorem isJson_part {a : Part Value} (h : ∀ v ∈ a.items, Json.IsJson v) :
    Json.IsJson (a.spell spelling) := by
  obtain ⟨token, items, next⟩ := a
  cases next with
  | none =>
      have hkeys : ["items", "has_more"].Nodup := by decide
      exact .object hkeys (List.forall_iff_forall_mem.mp ⟨.list h, .bool _⟩)
  | some next =>
      have hkeys : ["items", "has_more", "page_token"].Nodup := by decide
      exact .object hkeys (List.forall_iff_forall_mem.mp ⟨.list h, .bool _, .text next⟩)

theorem isJson_envelope (h : Json.IsJson data) : Json.IsJson (envelope data) := by
  have hkeys : ["code", "data"].Nodup := by decide
  exact .object hkeys (List.forall_iff_forall_mem.mp ⟨.int 0, h⟩)

theorem isJson_spellId (id : String) : Json.IsJson (spellId id) :=
  .object (List.nodup_singleton "record_id") (List.forall_iff_forall_mem.mp (.text id))

/-! Which integers are short enough. -/

theorem fits_envelope (data : Value) : Json.fits (envelope data) = Json.fits data := by
  have hcode : Json.fits (.int 0) = true := by decide
  rw [envelope, Json.fits_object, List.all_cons, hcode, List.all_cons, List.all_nil,
    Bool.true_and, Bool.and_true]

/-- Only the items of a page can be too long. -/
theorem fits_part (a : Part Value) : Json.fits (a.spell spelling) = a.items.all Json.fits := by
  have hmore (b : Bool) : Json.fits (.bool b) = true := rfl
  have htoken (next : String) : Json.fits (.text next) = true := rfl
  rw [Part.spell, Json.fits_object, List.all_cons, Json.fits_list, List.all_cons, hmore]
  cases a.next <;> simp [htoken]

/-- An interface that writes a page in an envelope sends it. -/
theorem sendsPage_written {service : Http.Request → Http.Reply} {sent : Http.Request → Value}
    {r : Http.Request} {a : Part Value} (hs : service r = written (sent r))
    (he : sent r = envelope (a.spell spelling)) (h : ∀ v ∈ a.items, Json.IsJson v) :
    SendsPage service sent r a where
  carried := by
    rw [hs, he]
    exact carries_written (isJson_envelope (isJson_part h))
  page := ⟨a.spell spelling, he ▸ envelope_isEnvelope rfl, part_spelled a⟩

end Remote

end TableAudit
