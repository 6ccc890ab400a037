import Mathlib.Data.List.Nodup
import TableAudit.Proofs.Cell.Texts
import TableAudit.Proofs.Table.Content
import TableAudit.Proofs.Table.Pages

/-!
# Complete rows

A reading asks for every page once and in the order of their tokens, and then for the order of the
rows. Its rows are those of all records, or of the records that the view shows, one for each and
numbered from 1. There are none if a cell among them cannot be written.
-/

namespace TableAudit

/-! ### Pages and their tokens -/

namespace Paged

variable {α ε : Type}

/-- Pages whose items are taken as they are come to the items of all of them. -/
theorem gather_ok (parts : List (Part α)) :
    gather (fun a => .ok a.items) parts = (.ok (parts.flatMap Part.items) : Except ε (List α)) := by
  induction parts with
  | nil => rfl
  | cons a parts ih =>
      rw [gather, ih, List.flatMap_cons]
      rfl

theorem tokens_partsFrom (last : List α) (token : Value) (early : List (List α × String)) :
    (partsFrom last token early).map Part.token =
      token :: early.map fun page => Value.text page.2 := by
  induction early generalizing token with
  | nil => rfl
  | cons page rest ih => rw [partsFrom, List.map_cons, ih, List.map_cons]

/-- No token is asked for twice. -/
theorem nodup_tokens (p : Paged α) : (p.parts.map Part.token).Nodup := by
  rw [parts, tokens_partsFrom, List.nodup_cons]
  constructor
  · rw [List.mem_map]
    rintro ⟨page, -, htext⟩
    cases htext
  · have htexts := List.Nodup.map (fun _ _ => Value.text.inj) p.distinct
    rwa [List.map_map] at htexts

end Paged

/-! ### Rows and their records -/

namespace Row

variable {columns : List Column} {records : List Record} {r : Record} {c : Column}

/-- The row of a record at a place: its cells have the normal texts of the payloads. -/
structure Shows (columns : List Column) (place : Record × Nat) (row : Row) : Prop where
  number : row.number = place.2
  recordId : row.recordId = place.1.id
  lastModifiedBy : row.lastModifiedBy = place.1.lastModifiedBy
  lastModifiedTime : row.lastModifiedTime = place.1.lastModifiedTime
  cell : ∀ id c, lastColumn? columns id = some c →
    ∃ s, Cell.writtenText c.type (place.1.payload id) = .ok s ∧ row.cells.lookup id = some s
  others : ∀ id, lastColumn? columns id = none → row.cells.lookup id = none

theorem holdsText_iff : holdsText r c = true ↔
    ∃ s, Cell.writtenText c.type (r.payload c.id) = .ok s := by
  rw [writtenText_eq]
  cases holdsText r c <;> simp

theorem isReadable_iff : isReadable columns r = true ↔
    ∀ c ∈ columns, ∃ s, Cell.writtenText c.type (r.payload c.id) = .ok s := by
  simp only [isReadable, List.all_eq_true, holdsText_iff]

theorem lastColumn?_some {id : String} (h : lastColumn? columns id = some c) :
    c ∈ columns ∧ c.id = id := by
  rw [lastColumn?] at h
  exact ⟨List.mem_reverse.mp (List.mem_of_find?_eq_some h), by simpa using List.find?_some h⟩

theorem shows_made (h : isReadable columns r = true) (number : Nat) :
    Shows columns (r, number) (made columns number r) where
  number := rfl
  recordId := rfl
  lastModifiedBy := rfl
  lastModifiedTime := rfl
  cell id c hc := by
    obtain ⟨hmem, rfl⟩ := lastColumn?_some hc
    have hlookup : (made columns number r).cells.lookup c.id = some (shownText r c) := by
      rw [made, lookup_shown, hc, Option.map_some]
    refine ⟨shownText r c, ?_, hlookup⟩
    rw [writtenText_eq, if_pos (List.all_eq_true.mp h c hmem)]
  others id hc := by
    rw [made, lookup_shown, hc, Option.map_none]

/-- There are rows just if every cell has a text. Then there is one for each record in its order,
and otherwise an integer is too long. -/
theorem ofRecords_complete (columns : List Column) (records : List Record) :
    ((∃ rows, ofRecords columns records = .ok rows) ↔
        ∀ r ∈ records, ∀ c ∈ columns, ∃ s, Cell.writtenText c.type (r.payload c.id) = .ok s) ∧
      (∀ rows, ofRecords columns records = .ok rows →
        List.Forall₂ (Shows columns) (records.zipIdx 1) rows) ∧
      ∀ f, ofRecords columns records = .error f → f = .digitLimit := by
  have hall : records.all (isReadable columns) = true ↔
      ∀ r ∈ records, ∀ c ∈ columns, ∃ s, Cell.writtenText c.type (r.payload c.id) = .ok s := by
    simp only [List.all_eq_true, isReadable_iff]
  rw [← hall, ofRecords_eq]
  cases hreadable : records.all (isReadable columns) with
  | false => simp
  | true =>
      refine ⟨by simp, fun rows hrows => ?_, by simp⟩
      rw [if_pos rfl] at hrows
      rw [← Except.ok.inj hrows, List.forall₂_map_right_iff, List.forall₂_same]
      rintro ⟨r, number⟩ hplace
      have hmem : r ∈ records := List.fst_mem_of_mem_zipIdx hplace
      exact shows_made (List.all_eq_true.mp hreadable r hmem) number

end Row

namespace Reading

section

variable {answer : TableCall → TableReply} {q : RowQuery} {p : Paged Record}
variable {view : Option (List String)} {handle : ViewHandle} {ids : List String} {bound : Nat}

/-! ### The questions of a reading -/

/-- The questions of a reading, with a bound on them. -/
def calls (answer : TableCall → TableReply) (q : RowQuery) : Nat → Reading → List TableCall
  | 0, _ => []
  | bound + 1, r =>
    r.call q ::
      match r.resume q (answer (r.call q)) with
      | .ask r => calls answer q bound r
      | _ => []

/-- The questions for the order of the rows. -/
def orderCalls (answer : TableCall → TableReply) (q : RowQuery) : List TableCall :=
  if hasView q then
    match answer (.view q.viewId) with
    | .view handle => [.view q.viewId, .visibleIds handle]
    | _ => [.view q.viewId]
  else []

/-- A reading ends with the questions for the order, once all records are there. -/
theorem calls_opening {order : Option (Except SourceError (List String))}
    (h : Orders answer q order) (hv : hasView q = true) (records : List Record) (bound : Nat) :
    calls answer q (bound + 2) (.opening records) = orderCalls answer q := by
  have hordering : ∀ handle, (∀ r, resume q (.ordering records handle)
      (answer (.visibleIds handle)) ≠ .ask r) →
      calls answer q (bound + 1) (.ordering records handle) = [.visibleIds handle] := by
    intro handle hask
    rw [calls, call]
    split
    · exact absurd ‹_› (hask _)
    · rfl
  have hopening : ∀ handle, answer (.view q.viewId) = .view handle →
      calls answer q (bound + 2) (.opening records) =
        .view q.viewId :: calls answer q (bound + 1) (.ordering records handle) := by
    intro handle hview
    rw [calls, call, hview, resume]
  rw [orderCalls, if_pos hv]
  cases h with
  | storage hno =>
      rw [hv] at hno
      cases hno
  | @view handle ids _ hview hids =>
      rw [hopening handle hview, hview, hordering handle]
      rw [hids, resume]
      intro r hr
      cases hrows : Row.ofRecords q.columns (visible records ids) <;>
        · rw [hrows] at hr
          cases hr
  | @failed handle e _ hview he =>
      rw [hopening handle hview, hview, hordering handle]
      rw [he]
      intro r hr
      cases hr

/-- The pages are asked for once and in their order, and then the order of the rows is. -/
theorem calls_paging {order : Option (Except SourceError (List String))}
    (h : Orders answer q order) (last : List Record) (early : List (List Record × String))
    {token : Value} (ht : Paged.Advances token early)
    (hp : ∀ a ∈ Paged.partsFrom last token early,
      IsPage (answer (.records q.pageSize a.token)) a.next (.ok a.items))
    (found : List Record) (pages bound : Nat) :
    calls answer q (early.length + bound + 3) (.paging found token pages) =
      (Paged.partsFrom last token early).map (fun a => .records q.pageSize a.token) ++
        orderCalls answer q := by
  induction early generalizing token found pages with
  | nil =>
      obtain ⟨next, hreply, -⟩ := hp ⟨token, last, none⟩ (by simp [Paged.partsFrom])
      rw [List.length_nil, Nat.zero_add, Paged.partsFrom, List.map_singleton,
        List.singleton_append, calls, call, hreply]
      simp only [resume, afterPage, Option.isSome_none, Bool.false_eq_true, if_false]
      cases hv : hasView q with
      | true => exact congrArg _ (calls_opening h hv _ bound)
      | false =>
          have hnone : orderCalls answer q = [] := by rw [orderCalls, if_neg (by simp [hv])]
          rw [hnone]
          cases Row.ofRecords q.columns (found ++ last) <;> rfl
  | cons page rest ih =>
      obtain ⟨items, next⟩ := page
      rw [Paged.partsFrom, List.forall_mem_cons] at hp
      obtain ⟨value, hreply, hnext⟩ := hp.1
      obtain rfl := hnext next rfl
      rw [List.length_cons, Nat.add_right_comm _ 1 bound, Nat.add_right_comm _ 1 3, calls, call,
        hreply, Paged.partsFrom, List.map_cons, List.cons_append]
      simp only [resume, afterPage, Option.isSome_some, ht.leads, if_true, Bool.false_eq_true,
        if_false]
      rw [ih ht.later hp.2]

/-! ### Complete readings -/

/-- The records that are shown: all of them, or those of the identifiers of a view that have one. -/
def shownRecords (view : Option (List String)) (records : List Record) : List Record :=
  match view with
  | none => records
  | some ids => ids.filterMap fun id => records.find? (·.id = id)

/-- A table gives its records in pages, and the order of a view if there is one. -/
structure Supplies (answer : TableCall → TableReply) (q : RowQuery) (p : Paged Record)
    (view : Option (List String)) : Prop where
  pages : ∀ a ∈ p.parts, IsPage (answer (.records q.pageSize a.token)) a.next (.ok a.items)
  order : Orders answer q (view.map .ok)

theorem ordered_eq (hids : (p.items.map Record.id).Nodup) (view : Option (List String)) :
    ordered (view.map .ok) p.items = .ok (shownRecords view p.items) := by
  cases view with
  | none => rfl
  | some ids =>
      have hfind : lastRecord? p.items = fun id => p.items.find? (·.id = id) :=
        funext (Content.lastRecord?_eq_find? hids)
      change Except.ok (visible p.items ids) = _
      rw [visible, hfind]
      rfl

/-- The rows of a table are those of the records that are shown. -/
theorem against_supplied (h : Supplies answer q p view) (hids : (p.items.map Record.id).Nodup)
    (hbound : p.early.length + 3 ≤ bound) :
    against answer q bound .start = rowsOf q.columns (shownRecords view p.items) := by
  rw [against_pages (fun a => .ok a.items) p h.order h.pages hbound, Paged.gather_ok, p.parts_items,
    ok_bind, ordered_eq hids view, ok_bind]

theorem rowsOf_ok_iff {columns : List Column} {records : List Record} {rows : List Row} :
    rowsOf columns records = .ok rows ↔ Row.ofRecords columns records = .ok rows := by
  rw [rowsOf]
  cases Row.ofRecords columns records <;> simp [Except.mapError]

theorem rowsOf_error {columns : List Column} {records : List Record} {e : SourceError}
    (h : rowsOf columns records = .error e) : e = .fault .digitLimit := by
  rw [rowsOf] at h
  cases hrows : Row.ofRecords columns records with
  | ok rows =>
      rw [hrows] at h
      cases h
  | error f =>
      rw [hrows] at h
      obtain rfl := (Row.ofRecords_complete columns records).2.2 f hrows
      exact (Except.error.inj h).symm

end

/-! ### Two records in a register -/

namespace Register

def first : Record :=
  ⟨"r1", [(.text "f", .int 7)], none, none⟩

/-- A record of a number. -/
def second (n : Int) : Record :=
  ⟨"r2", [(.text "f", .int n)], none, none⟩

/-- The records, each on a page of its own. -/
def records (n : Int) : Paged Record :=
  ⟨[([first], "t")], [second n], by simp, by simp⟩

/-- A table of the records, with a view that shows them from the last to the first. -/
def answer (n : Int) : TableCall → TableReply
  | .records _ .null => .page ⟨[first], true, .text "t"⟩
  | .records _ _ => .page ⟨[second n], false, .null⟩
  | .view id => .view ⟨id, true⟩
  | .visibleIds _ => .visibleIds ["r2", "r9", "r1"]
  | _ => .failed (.fault .wrongKind)

def query (viewId : Value) : RowQuery :=
  ⟨[⟨"f", "Count", .number, .null, .map []⟩], viewId, .int 100⟩

theorem pages_supplied (n : Int) (viewId : Value) :
    ∀ a ∈ (records n).parts,
      IsPage (answer n (.records (query viewId).pageSize a.token)) a.next (.ok a.items) := by
  refine List.forall_mem_cons.mpr ⟨?_, ?_⟩
  · exact ⟨.text "t", rfl, fun s hs => congrArg _ (Option.some.inj hs)⟩
  · exact List.forall_mem_singleton.mpr ⟨.null, rfl, nofun⟩

theorem view_supplied (n : Int) :
    Supplies (answer n) (query (.text "v")) (records n) (some ["r2", "r9", "r1"]) where
  pages := pages_supplied n (.text "v")
  order := .view rfl rfl rfl

theorem storage_supplied (n : Int) : Supplies (answer n) (query .null) (records n) none where
  pages := pages_supplied n .null
  order := .storage rfl

theorem nodup_ids (n : Int) : ((records n).items.map Record.id).Nodup := by
  change ["r1", "r2"].Nodup
  decide

end Register

/-! ### The main result -/

section

variable {answer : TableCall → TableReply} {q : RowQuery} {p : Paged Record}
variable {view : Option (List String)} {bound : Nat}

end

open Register

end Reading

end TableAudit
