import Mathlib.Data.List.Forall2
import TableAudit.Proofs.Cell.Writable
import TableAudit.Proofs.Fault
import TableAudit.Proofs.Table.Pages
import TableAudit.Table.Document
import TableAudit.Table.Row

/-!
# Rows of records

The rows of records are there if every cell of them can be written; otherwise there is none. A cell
holds the normal text of the record's payload for its column, or for the last one of several columns
with the same identifier.
-/

namespace TableAudit

/-- If each item has a result under a condition and one error otherwise, so have all of them. -/
theorem mapM_guarded {α β ε : Type} {f : α → Except ε β} {p : α → Bool} {g : α → β} {e : ε}
    (h : ∀ a, f a = if p a then .ok (g a) else .error e) (as : List α) :
    as.mapM f = if as.all p then .ok (as.map g) else .error e := by
  induction as with
  | nil => rfl
  | cons a as ih =>
      rw [List.mapM_cons, h, ih, List.all_cons, List.map_cons]
      cases p a with
      | false => rfl
      | true => cases as.all p <;> rfl

namespace Row

variable {columns : List Column} {records : List Record} {r : Record} {c : Column}

/-- Whether the cell of a record in a column can be written. -/
def holdsText (r : Record) (c : Column) : Bool :=
  (Cell.ofPayload c.type (r.payload c.id)).isWritable

/-- Whether the cells of a record can be written. -/
def isReadable (columns : List Column) (r : Record) : Bool :=
  columns.all (holdsText r)

/-- The normal text of a record in a column. -/
def shownText (r : Record) (c : Column) : String :=
  Cell.normalText c.type (r.payload c.id)

/-- The normal texts of a record in the given columns. -/
def shown (columns : List Column) (r : Record) : List (String × String) :=
  columns.foldl (fun cs c => setCell cs c.id (shownText r c)) []

/-- The row of a record at a place, all of whose cells can be written. -/
def made (columns : List Column) (number : Nat) (r : Record) : Row :=
  ⟨number, r.id, shown columns r, r.lastModifiedBy, r.lastModifiedTime⟩

theorem writtenText_eq (r : Record) (c : Column) :
    Cell.writtenText c.type (r.payload c.id) =
      if holdsText r c then .ok (shownText r c) else .error .digitLimit :=
  rfl

theorem cellsOf_eq (columns : List Column) (r : Record) :
    cellsOf columns r = if isReadable columns r then .ok (shown columns r)
      else .error .digitLimit := by
  rw [cellsOf, isReadable, shown]
  generalize ([] : List (String × String)) = cells
  induction columns generalizing cells with
  | nil => rfl
  | cons c columns ih =>
      rw [List.foldlM_cons, writtenText_eq, List.all_cons, List.foldl_cons]
      cases holdsText r c with
      | false => rfl
      | true => exact ih _

theorem ofRecord_eq (columns : List Column) (number : Nat) (r : Record) :
    ofRecord columns number r = if isReadable columns r then .ok (made columns number r)
      else .error .digitLimit := by
  rw [ofRecord, cellsOf_eq]
  cases isReadable columns r <;> rfl

/-- There are rows if all cells can be written: one for each record, numbered from 1. -/
theorem ofRecords_eq (columns : List Column) (records : List Record) :
    ofRecords columns records =
      if records.all (isReadable columns) then
        .ok ((records.zipIdx 1).map fun x => made columns x.2 x.1)
      else .error .digitLimit := by
  have hreadable : (records.zipIdx 1).all (isReadable columns ∘ Prod.fst) =
      records.all (isReadable columns) := by
    rw [← List.all_map, List.zipIdx_map_fst]
  rw [ofRecords, ← hreadable]
  exact mapM_guarded (fun x => ofRecord_eq columns x.2 x.1) _

/-! ### The text under an identifier -/

theorem lookup_setCell (cells : List (String × String)) (id s key : String) :
    (setCell cells id s).lookup key = if id = key then some s else cells.lookup key := by
  have hcons (k t : String) (cells : List (String × String)) :
      ((k, t) :: cells).lookup key = if k = key then some t else cells.lookup key := by
    rw [List.lookup_cons]
    by_cases h : k = key
    · rw [h, beq_self_eq_true, if_pos rfl]
    · rw [beq_eq_false_iff_ne.mpr (Ne.symm h), if_neg h]
  induction cells with
  | nil => exact hcons id s []
  | cons x cells ih =>
      obtain ⟨k, t⟩ := x
      rw [setCell, hcons k t]
      by_cases hk : k = id
      · rw [if_pos hk, hcons, hk]
        split <;> rfl
      · rw [if_neg hk, hcons, ih]
        by_cases hkey : k = key
        · rw [if_pos hkey, if_pos hkey, if_neg fun h => hk (hkey.trans h.symm)]
        · rw [if_neg hkey, if_neg hkey]

/-- The last column with an identifier. -/
def lastColumn? (columns : List Column) (id : String) : Option Column :=
  columns.reverse.find? (·.id = id)

/-- Under an identifier stands the text for the last column that has it. -/
theorem lookup_shown (columns : List Column) (r : Record) (id : String) :
    (shown columns r).lookup id = (lastColumn? columns id).map (shownText r) := by
  rw [lastColumn?, shown, ← List.foldr_reverse]
  induction columns.reverse with
  | nil => rfl
  | cons c columns ih =>
      rw [List.foldr_cons, lookup_setCell, ih, List.find?_cons]
      by_cases h : c.id = id <;> simp [h]

end Row

end TableAudit

/-!
## What a table holds

A table holds columns and records; each record has a cell in some of the columns, and it may say who
changed it last and when. From this follow the columns and rows that a reading is to give. Sources
spell the same content in different ways: attributes have different names, and cells go by the
identifiers of columns or by their names.
-/

namespace TableAudit

/-- A number without its fraction. -/
def Number.whole : Number → Except Fault Number
  | .int n => .ok (.int n)
  | .float .nan => .error .undefinedNumber
  | .float x =>
    match x.truncate? with
    | some n => .ok (.int n)
    | none => .error .outOfRange

namespace Content

/-- A column of a table. Its type is a code, its description and its property any values. -/
structure Field where
  id : String
  name : String
  type : Value
  description : Value
  property : Value

/-- The column to be read. Nothing for a property means that there are none. -/
def Field.column (f : Field) : Except Fault Column :=
  (ColumnType.ofCode f.type).map fun type =>
    ⟨f.id, f.name, type, f.description, if f.property.isTruthy then f.property else .map []⟩

/-- A record of a table: its cells by the identifiers of columns, who changed it last, and when. A
column may have no cell in it. -/
structure Entry where
  id : String
  cell : String → Option Value
  editor : Option String
  time : Option Number

/-- A record with the time of its change in whole milliseconds. -/
abbrev Dated := Entry × Option Number

/-- When the record was changed, in whole milliseconds. -/
def Entry.changed (e : Entry) : Except Fault (Option Number) :=
  match e.time with
  | none => .ok none
  | some n => n.whole.map some

/-- The record with the time of its change. -/
def Entry.dated (e : Entry) : Except Fault Dated :=
  e.changed.map fun time => (e, time)

/-- The row to be read at a place. A cell that is missing counts as one that holds nothing. -/
def row (columns : List Column) (number : Nat) (e : Dated) : Row :=
  ⟨number, e.1.id, columns.map fun c => (c.id, Cell.normalText c.type ((e.1.cell c.id).getD .null)),
    e.1.editor.filter (· ≠ ""), e.2⟩

/-- The rows of records, numbered from 1. -/
def rows (columns : List Column) (entries : List Dated) : List Row :=
  (entries.zipIdx 1).map fun (e, number) => row columns number e

/-- Records in the order of a view, or in that of storage. -/
def inOrder (view : Option (List String)) (entries : List Dated) : List Dated :=
  match view with
  | none => entries
  | some ids => ids.filterMap fun id => entries.find? (·.1.id = id)

end Content

/-- What a table holds. No two columns have the same identifier or the same name, and no two records
have the same identifier, which is never empty. -/
structure Content where
  fields : List Content.Field
  entries : List Content.Entry
  ids : (fields.map Content.Field.id).Nodup
  names : (fields.map Content.Field.name).Nodup
  recordIds : (entries.map Content.Entry.id).Nodup
  filled : ∀ e ∈ entries, e.id ≠ ""

/-- The columns and rows to be read. -/
def Content.reading (t : Content) (view : Option (List String)) :
    Except Fault (List Column × List Row) := do
  let columns ← t.fields.mapM Content.Field.column
  let entries ← t.entries.mapM Content.Entry.dated
  .ok (columns, Content.rows columns (Content.inOrder view entries))

/-! ### Spellings -/

/-- How a source spells columns, records and pages: how attributes are looked up, their names, and
by what the cells of a record go. -/
structure Spelling where
  look : Value → String → Option Value
  fieldId : String
  fieldName : String
  recordId : String
  editor : String
  time : String
  records : String
  more : String
  token : String
  key : Content.Field → String

/-- The value of an attribute, nothing where it is missing. -/
def Spelling.get (s : Spelling) (v : Value) (name : String) : Value :=
  (s.look v name).getD .null

/-- Whether a value spells a page of items. It may have further attributes. -/
structure Part.SpelledBy (s : Spelling) (v : Value) (a : Part Value) : Prop where
  items : s.look v s.records = some (.list a.items)
  more : (s.get v s.more).isTruthy = a.next.isSome
  token : ∀ next, a.next = some next → s.look v s.token = some (.text next)

namespace Content

/-- The cells of a record by the keys of columns, in any order. -/
structure Keyed (key : Field → String) (fields : List Field) (cell : String → Option Value)
    (held : List (String × Value)) : Prop where
  once : (held.map Prod.fst).Nodup
  known : ∀ name ∈ held.map Prod.fst, ∃ f ∈ fields, key f = name
  cell : ∀ f ∈ fields, held.lookup (key f) = cell f.id

/-- Whether a value spells a column. It may have further attributes. -/
structure Field.SpelledBy (s : Spelling) (v : Value) (f : Field) : Prop where
  id : s.look v s.fieldId = some (.text f.id)
  name : s.look v s.fieldName = some (.text f.name)
  type : s.get v "type" = f.type
  description : s.get v "description" = f.description
  property : s.get v "property" = f.property

/-- Whether a value spells a record. It may have further attributes. -/
structure Entry.SpelledBy (s : Spelling) (fields : List Field) (v : Value) (e : Entry) :
    Prop where
  id : s.look v s.recordId = some (.text e.id)
  cells : ∃ held, s.look v "fields" = some (.object held) ∧ Keyed s.key fields e.cell held
  editor : s.get (s.get v s.editor) "id" = .ofOption .text e.editor
  time : s.get v s.time = changeValue e.time

end Content

/-! ### What is read -/

/-- Whether what a source gives agrees with what it is to give: with a result if there is one, with
the fault otherwise. -/
inductive ReadAs {α β : Type} (R : α → β → Prop) : Except SourceError α → Except Fault β → Prop
  | ok {a : α} {b : β} : R a b → ReadAs R (.ok a) (.ok b)
  | fault (f : Fault) : ReadAs R (.error (.fault f)) (.error f)

namespace ReadAs

variable {α β γ δ : Type} {R : α → β → Prop}

theorem cons {x : Except SourceError α} {y : Except Fault β} {xs : Except SourceError (List α)}
    {ys : Except Fault (List β)} (h : ReadAs R x y) (hs : ReadAs (List.Forall₂ R) xs ys) :
    ReadAs (List.Forall₂ R) (x >>= fun a => xs >>= fun as => pure (a :: as))
      (y >>= fun b => ys >>= fun bs => pure (b :: bs)) := by
  cases h with
  | fault f => exact .fault f
  | ok h =>
      cases hs with
      | fault f => exact .fault f
      | ok hs => exact .ok (.cons h hs)

/-- Lists whose items are read as others are read as the list of these. -/
theorem mapM {f : γ → Except SourceError α} {g : δ → Except Fault β} {vs : List γ} {es : List δ}
    (h : List.Forall₂ (fun v e => ReadAs R (f v) (g e)) vs es) :
    ReadAs (List.Forall₂ R) (vs.mapM f) (es.mapM g) := by
  induction h with
  | nil => exact .ok .nil
  | cons hv _ ih =>
      rw [List.mapM_cons, List.mapM_cons]
      exact hv.cons ih

theorem exists_ok {x : Except SourceError α} {b : β} (h : ReadAs R x (.ok b)) :
    ∃ a, x = .ok a ∧ R a b := by
  cases h with
  | ok h => exact ⟨_, rfl, h⟩

theorem eq_fault {x : Except SourceError α} {f : Fault} (h : ReadAs R x (.error f)) :
    x = .error (.fault f) := by
  cases h with
  | fault f => rfl

theorem eq {x : Except SourceError α} {y : Except Fault α} (h : ReadAs Eq x y) :
    x = y.mapError .fault := by
  cases h with
  | ok h => rw [h]; rfl
  | fault f => rfl

theorem of_eq {x : Except SourceError α} {y : Except Fault α} (h : x = y.mapError .fault) :
    ReadAs Eq x y := by
  rw [h]
  cases y with
  | ok a => exact .ok rfl
  | error f => exact .fault f

end ReadAs

theorem forall₂_of_mapM {α β ε : Type} {f : α → Except ε β} {as : List α} {bs : List β}
    (h : as.mapM f = .ok bs) : List.Forall₂ (fun a b => f a = .ok b) as bs := by
  induction as generalizing bs with
  | nil =>
      cases h
      exact .nil
  | cons a as ih =>
      rw [List.mapM_cons] at h
      obtain ⟨b, hb, h⟩ := bind_ok_iff.mp h
      obtain ⟨cs, hcs, h⟩ := bind_ok_iff.mp h
      cases h
      exact .cons hb (ih hcs)

namespace Content

variable {fields : List Field} {columns : List Column} {records : List Record}
variable {entries : List Dated} {r : Record} {e : Dated}

/-- Columns keep the identifiers and names that the table gives them. -/
theorem columns_of_mapM (h : fields.mapM Field.column = .ok columns) :
    columns.map (fun c => (c.id, c.name)) = fields.map fun f => (f.id, f.name) := by
  have hall := forall₂_of_mapM h
  clear h
  induction hall with
  | nil => rfl
  | cons hc _ ih =>
      obtain ⟨type, -, rfl⟩ := map_ok_iff.mp hc
      rw [List.map_cons, List.map_cons, ih]

theorem ids_of_mapM (h : fields.mapM Field.column = .ok columns) :
    columns.map Column.id = fields.map Field.id := by
  have hpairs := congrArg (List.map Prod.fst) (columns_of_mapM h)
  rw [List.map_map, List.map_map] at hpairs
  exact hpairs

theorem names_of_mapM (h : fields.mapM Field.column = .ok columns) :
    columns.map Column.name = fields.map Field.name := by
  have hpairs := congrArg (List.map Prod.snd) (columns_of_mapM h)
  rw [List.map_map, List.map_map] at hpairs
  exact hpairs

theorem entries_of_mapM {es : List Entry} (h : es.mapM Entry.dated = .ok entries) :
    entries.map Prod.fst = es := by
  have hall := forall₂_of_mapM h
  clear h
  induction hall with
  | nil => rfl
  | @cons e d es entries hd _ ih =>
      have he : d.1 = e := by
        obtain ⟨time, -, rfl⟩ := map_ok_iff.mp hd
        rfl
      rw [List.map_cons, ih, he]

/-- Whether a record that was read stands for a record of the table. -/
structure Stands (columns : List Column) (r : Record) (e : Dated) : Prop where
  id : r.id = e.1.id
  payload : ∀ c ∈ columns, r.payload c.id = (e.1.cell c.id).getD .null
  editor : r.lastModifiedBy = e.1.editor.filter (· ≠ "")
  time : r.lastModifiedTime = e.2

/-- The record that is made of an identifier, cells, an editor and a time stands for the record of
the table, or there is none for want of a time. -/
theorem readAs_made (e : Entry) {cells : List (Value × Value)}
    (h : ∀ f ∈ fields, Value.lookup cells f.id = e.cell f.id)
    (hc : columns.map Column.id = fields.map Field.id) :
    ReadAs (Stands columns)
      ((e.changed.map fun time => (⟨e.id, cells, e.editor.filter (· ≠ ""), time⟩ : Record)).mapError
        .fault) e.dated := by
  rw [Entry.dated]
  cases e.changed with
  | error f => exact .fault f
  | ok time =>
      refine .ok ⟨rfl, fun c hm => ?_, rfl, rfl⟩
      obtain ⟨f, hf, hid⟩ : ∃ f ∈ fields, f.id = c.id := by
        rw [← List.mem_map, ← hc]
        exact List.mem_map_of_mem hm
      rw [← hid, Record.payload, h f hf]

theorem lookup_object (held : List (String × Value)) (key : String) :
    Value.lookup (held.map fun x => (.text x.1, x.2)) key = held.lookup key := by
  induction held with
  | nil => rfl
  | cons x held ih =>
      rw [List.map_cons, Value.lookup, List.findSome?_cons, List.lookup_cons]
      by_cases hx : x.1 = key
      · simp [hx]
      · have hne : (key == x.1) = false := beq_eq_false_iff_ne.mpr (Ne.symm hx)
        simp only [hx, if_false, hne]
        exact ih

/-- An empty identifier counts as none. -/
theorem ofOption_text (editor : Option String) :
    (if (Value.ofOption .text editor).isTruthy then some (Value.ofOption .text editor).plain
      else none) = editor.filter (· ≠ "") := by
  cases editor with
  | none => rfl
  | some id =>
      by_cases hid : id = "" <;>
        simp [Value.ofOption, Value.isTruthy, Value.plain, Option.filter, hid]

theorem setCell_new {cells : List (String × String)} {id : String}
    (h : id ∉ cells.map Prod.fst) (s : String) : Row.setCell cells id s = cells ++ [(id, s)] := by
  induction cells with
  | nil => rfl
  | cons c cells ih =>
      rw [List.map_cons, List.mem_cons, not_or] at h
      rw [Row.setCell, if_neg (Ne.symm h.1), ih h.2]
      rfl

/-- Of columns with different keys each gets its cell, in their order. -/
theorem foldl_setCell (key text : Column → String) (cells : List (String × String))
    (h : (cells.map Prod.fst ++ columns.map key).Nodup) :
    columns.foldl (fun cs c => Row.setCell cs (key c) (text c)) cells =
      cells ++ columns.map fun c => (key c, text c) := by
  induction columns generalizing cells with
  | nil => simp
  | cons c columns ih =>
      have hnew : key c ∉ cells.map Prod.fst := by
        intro hmem
        rw [List.nodup_append] at h
        exact h.2.2 _ hmem (key c) (by simp) rfl
      rw [List.foldl_cons, setCell_new hnew, ih]
      · simp
      · simpa using h

theorem Stands.row (h : Stands columns r e) (hc : (columns.map Column.id).Nodup) (number : Nat) :
    Row.made columns number r = Content.row columns number e := by
  rw [Row.made, Row.shown, Content.row, foldl_setCell Column.id _ [] (by simpa using hc), h.id,
    h.editor, h.time, List.nil_append]
  congr 1
  exact List.map_congr_left fun c hm => by rw [Row.shownText, h.payload c hm]

/-- Whether the cells of a record can be written in the columns. -/
def Legible (columns : List Column) (e : Entry) : Prop :=
  ∀ c ∈ columns, (Cell.ofPayload c.type ((e.cell c.id).getD .null)).isWritable = true

theorem Stands.isReadable (h : Stands columns r e) (hl : Legible columns e.1) :
    Row.isReadable columns r = true := by
  rw [Row.isReadable, List.all_eq_true]
  intro c hc
  rw [Row.holdsText, h.payload c hc]
  exact hl c hc

theorem isReadable_of_stands (h : List.Forall₂ (Stands columns) records entries)
    (hl : ∀ e ∈ entries, Legible columns e.1) :
    ∀ r ∈ records, Row.isReadable columns r = true := by
  induction h with
  | nil => exact fun r hr => absurd hr List.not_mem_nil
  | cons hr _ ih =>
      rw [List.forall_mem_cons] at hl ⊢
      exact ⟨hr.isReadable hl.1, ih hl.2⟩

theorem rows_of_stands (h : List.Forall₂ (Stands columns) records entries)
    (hc : (columns.map Column.id).Nodup) (hl : ∀ e ∈ entries, Legible columns e.1) :
    Row.ofRecords columns records = .ok (rows columns entries) := by
  rw [Row.ofRecords_eq, if_pos (List.all_eq_true.mpr (isReadable_of_stands h hl))]
  suffices ∀ n, (records.zipIdx n).map (fun x => Row.made columns x.2 x.1) =
      (entries.zipIdx n).map fun x => row columns x.2 x.1 from congrArg _ (this 1)
  clear hl
  induction h with
  | nil => intro n; rfl
  | cons hr _ ih =>
      intro n
      simp only [List.zipIdx_cons, List.map_cons, ih, hr.row hc]

/-! ### The order of a view -/

/-- With no identifier twice it does not matter from which end a record is looked for. -/
theorem lastRecord?_eq_find? (h : (records.map Record.id).Nodup) (id : String) :
    Reading.lastRecord? records id = records.find? (·.id = id) := by
  rw [Reading.lastRecord?]
  induction records with
  | nil => rfl
  | cons r records ih =>
      rw [List.map_cons, List.nodup_cons] at h
      rw [List.reverse_cons, List.find?_append, ih h.2, List.find?_cons, List.find?_cons]
      by_cases hr : r.id = id
      · have hnone : records.find? (·.id = id) = none := by
          rw [List.find?_eq_none]
          intro x hx
          simp only [decide_eq_true_eq]
          rintro hxid
          exact h.1 (List.mem_map.mpr ⟨x, hx, hxid.trans hr.symm⟩)
        simp [hnone, hr]
      · simp [hr]

theorem ids_of_stands (h : List.Forall₂ (Stands columns) records entries) :
    records.map Record.id = entries.map fun e => e.1.id := by
  induction h with
  | nil => rfl
  | cons hr _ ih => rw [List.map_cons, List.map_cons, hr.id, ih]

theorem find?_stands (h : List.Forall₂ (Stands columns) records entries) (id : String) :
    Option.Rel (Stands columns) (records.find? (·.id = id)) (entries.find? (·.1.id = id)) := by
  induction h with
  | nil => exact .none
  | cons hr _ ih =>
      rw [List.find?_cons, List.find?_cons, hr.id]
      split
      · exact .some hr
      · exact ih

/-- The records that a view shows are those that it is to show. -/
theorem visible_stands (h : List.Forall₂ (Stands columns) records entries)
    (hd : (entries.map fun e => e.1.id).Nodup) (ids : List String) :
    List.Forall₂ (Stands columns) (Reading.visible records ids) (inOrder (some ids) entries) := by
  rw [Reading.visible, inOrder]
  induction ids with
  | nil => exact .nil
  | cons id ids ih =>
      have hrel := find?_stands h id
      rw [List.filterMap_cons, List.filterMap_cons, lastRecord?_eq_find? (ids_of_stands h ▸ hd)]
      generalize records.find? (·.id = id) = x at hrel
      generalize entries.find? (·.1.id = id) = y at hrel
      cases hrel with
      | none => exact ih
      | some hr => exact .cons hr ih

theorem mem_of_inOrder {view : Option (List String)} (h : e ∈ inOrder view entries) :
    e ∈ entries := by
  cases view with
  | none => exact h
  | some ids =>
      obtain ⟨id, -, hfind⟩ := List.mem_filterMap.mp h
      exact List.mem_of_find?_eq_some hfind

/-- A view that shows no empty identifiers shows the same records. -/
theorem inOrder_filled (h : ∀ e ∈ entries, e.1.id ≠ "") (ids : List String) :
    inOrder (some (ids.filter (· ≠ ""))) entries = inOrder (some ids) entries := by
  simp only [inOrder, List.filterMap_filter]
  refine List.filterMap_congr fun id _ => ?_
  by_cases hid : id = ""
  · have hnone : entries.find? (·.1.id = id) = none := by
      rw [List.find?_eq_none]
      intro e he
      simpa [hid] using h e he
    rw [hnone]
    simp [hid]
  · simp [hid]

/-- Whether a source gives the order of a view. It may leave out empty identifiers. -/
inductive Shows : Option (Except SourceError (List String)) → Option (List String) → Prop
  | storage : Shows none none
  | all (ids : List String) : Shows (some (.ok ids)) (some ids)
  | filled (ids : List String) : Shows (some (.ok (ids.filter (· ≠ "")))) (some ids)

theorem shows_filled (view : Option (List String)) :
    Shows (view.map fun ids => .ok (ids.filter (· ≠ ""))) view := by
  cases view with
  | none => exact .storage
  | some ids => exact .filled ids

/-- Of records that stand for those of a table, the rows in the order of the view are those to be
read. -/
theorem rows_ordered {shown : Option (Except SourceError (List String))}
    {view : Option (List String)} (hv : Shows shown view)
    (h : List.Forall₂ (Stands columns) records entries) (hc : (columns.map Column.id).Nodup)
    (hd : (entries.map fun e => e.1.id).Nodup) (hf : ∀ e ∈ entries, e.1.id ≠ "")
    (hl : ∀ e ∈ entries, Legible columns e.1) :
    (Reading.ordered shown records >>= Reading.rowsOf columns) =
      .ok (rows columns (inOrder view entries)) := by
  have hmade {rs : List Record} {es : List Dated} (h : List.Forall₂ (Stands columns) rs es)
      (hl : ∀ e ∈ es, Legible columns e.1) :
      Reading.rowsOf columns rs = .ok (rows columns es) := by
    rw [Reading.rowsOf, rows_of_stands h hc hl]
    rfl
  have hvisible (ids : List String) := hmade (visible_stands h hd ids) fun e he =>
    hl e (mem_of_inOrder he)
  cases hv with
  | storage => exact hmade h hl
  | all ids => exact hvisible ids
  | filled ids =>
      rw [← inOrder_filled hf]
      exact hvisible _

end Content

/-- Whether the cells of a table can be written. -/
def Content.IsLegible (t : Content) : Prop :=
  ∀ columns, t.fields.mapM Content.Field.column = .ok columns →
    ∀ e ∈ t.entries, Content.Legible columns e

/-- What comes of reading the columns of a table, its records and the order of a view is what is to
be read. -/
theorem Content.reading_of_records (t : Content) {view : Option (List String)}
    {shown : Option (Except SourceError (List String))} (hv : Content.Shows shown view)
    {records : List Column → Except SourceError (List Record)}
    (hr : ∀ columns, t.fields.mapM Content.Field.column = .ok columns →
      ReadAs (List.Forall₂ (Content.Stands columns)) (records columns)
        (t.entries.mapM Content.Entry.dated))
    (hl : t.IsLegible) :
    ((t.fields.mapM Content.Field.column).mapError .fault >>= fun columns =>
        (records columns >>= fun rs => Reading.ordered shown rs >>= Reading.rowsOf columns).map
          fun rows => (columns, rows)) =
      (t.reading view).mapError .fault := by
  rw [Content.reading]
  cases hc : t.fields.mapM Content.Field.column with
  | error f => rfl
  | ok columns =>
      have hread := hr columns hc
      cases he : t.entries.mapM Content.Entry.dated with
      | error f =>
          rw [he] at hread
          change Except.map _ (records columns >>= _) = .error (.fault f)
          rw [hread.eq_fault]
          rfl
      | ok entries =>
          rw [he] at hread
          obtain ⟨rs, hrs, hstands⟩ := hread.exists_ok
          have hfst := Content.entries_of_mapM he
          have hids : (entries.map fun e => e.1.id).Nodup := by
            have h := t.recordIds
            rwa [← hfst, List.map_map] at h
          have hfilled : ∀ e ∈ entries, e.1.id ≠ "" := fun e hm =>
            t.filled e.1 (hfst ▸ List.mem_map_of_mem hm)
          have hlegible : ∀ e ∈ entries, Content.Legible columns e.1 := fun e hm =>
            hl columns hc e.1 (hfst ▸ List.mem_map_of_mem hm)
          have hrows := Content.rows_ordered hv hstands (Content.ids_of_mapM hc ▸ t.ids) hids hfilled
            hlegible
          change Except.map _ (records columns >>= _) =
            .ok (columns, Content.rows columns (Content.inOrder view entries))
          rw [hrs, ok_bind, hrows]
          rfl

/-! ### Finite numbers -/

/-- A finite number has a whole part. -/
theorem Number.whole_ok {n : Number} (hn : n ≠ .float .nan)
    (hi : ∀ negative, n ≠ .float (.infinity negative)) : ∃ k, n.whole = .ok k := by
  cases n with
  | int n => exact ⟨_, rfl⟩
  | float x =>
      cases x with
      | nan => exact absurd rfl hn
      | infinity negative => exact absurd rfl (hi negative)
      | finite s m e => exact ⟨_, rfl⟩

theorem exists_mapM_ok {α β ε : Type} {f : α → Except ε β} {as : List α}
    (h : ∀ a ∈ as, ∃ b, f a = .ok b) : ∃ bs, as.mapM f = .ok bs := by
  have hall : ∀ a ∈ as, ∃ b, f a = .ok b ∧ True := by simpa using h
  obtain ⟨bs, hbs, -⟩ := exists_mapM_iff.mpr hall
  exact ⟨bs, hbs⟩

/-- No type code of a column is infinite, and every time of a change is a finite number. -/
structure Content.Finite (t : Content) : Prop where
  types : ∀ f ∈ t.fields, ∀ negative, f.type ≠ .float (.infinity negative)
  times : ∀ e ∈ t.entries, e.time ≠ some (.float .nan) ∧
    ∀ negative, e.time ≠ some (.float (.infinity negative))

/-- There are columns and rows to be read where the numbers are finite. -/
theorem Content.Finite.reading {t : Content} (h : t.Finite) (view : Option (List String)) :
    ∃ shown, t.reading view = .ok shown := by
  obtain ⟨columns, hc⟩ : ∃ columns, t.fields.mapM Content.Field.column = .ok columns := by
    refine exists_mapM_ok fun f hf => ?_
    obtain ⟨type, htype⟩ := ColumnType.ofCode_ok_iff.mpr (h.types f hf)
    exact ⟨_, by rw [Content.Field.column, htype]; rfl⟩
  obtain ⟨entries, he⟩ : ∃ entries, t.entries.mapM Content.Entry.dated = .ok entries := by
    refine exists_mapM_ok fun e he => ?_
    obtain ⟨hn, hi⟩ := h.times e he
    rw [Content.Entry.dated, Content.Entry.changed]
    cases htime : e.time with
    | none => exact ⟨_, rfl⟩
    | some n =>
        obtain ⟨k, hk⟩ := Number.whole_ok (n := n) (fun heq => hn (heq ▸ htime)) fun negative heq =>
          hi negative (heq ▸ htime)
        exact ⟨(e, some k), by simp only [hk, Except.map]⟩
  exact ⟨_, by rw [Content.reading, hc, ok_bind, he]; rfl⟩

end TableAudit
