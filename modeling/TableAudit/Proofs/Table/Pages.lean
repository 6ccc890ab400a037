import TableAudit.Proofs.Source.Loops
import TableAudit.Table.Reading

/-!
# Lists in pages

A list may be served in pages, where every page but the last names the token of the page after it.
If no token is empty or comes twice, a reading goes through the pages once and in their order. What
it comes to is then the same as for a list in one piece: the cut into pages leaves no trace.
-/

namespace TableAudit

variable {α β ε : Type}

/-- A page: the token by which it is asked for, its items, and the token of the page after it. -/
structure Part (α : Type) where
  token : Value
  items : List α
  next : Option String

/-- A list in pages. Every page but the last comes with the token of the page after it. -/
structure Paged (α : Type) where
  early : List (List α × String)
  last : List α
  filled : "" ∉ early.map Prod.snd
  distinct : (early.map Prod.snd).Nodup

namespace Paged

/-- The pages from a token on. -/
def partsFrom (last : List α) : Value → List (List α × String) → List (Part α)
  | token, [] => [⟨token, last, none⟩]
  | token, (items, next) :: rest => ⟨token, items, some next⟩ :: partsFrom last (.text next) rest

/-- The pages. The first one is asked for without a token. -/
def parts (p : Paged α) : List (Part α) :=
  partsFrom p.last .null p.early

/-- The list in one piece. -/
def items (p : Paged α) : List α :=
  p.early.flatMap Prod.fst ++ p.last

theorem partsFrom_items (last : List α) (token : Value) (early : List (List α × String)) :
    (partsFrom last token early).flatMap Part.items = early.flatMap Prod.fst ++ last := by
  induction early generalizing token with
  | nil => simp [partsFrom]
  | cons page rest ih => simp [partsFrom, ih]

theorem parts_items (p : Paged α) : p.parts.flatMap Part.items = p.items :=
  partsFrom_items p.last .null p.early

/-- Every token leads on: none is empty, none comes twice, and none is the token at hand. -/
structure Advances (token : Value) (early : List (List α × String)) : Prop where
  filled : "" ∉ early.map Prod.snd
  distinct : (early.map Prod.snd).Nodup
  fresh : ∀ s ∈ early.map Prod.snd, (Value.text s).eqv token = false

theorem advances (p : Paged α) : Advances .null p.early :=
  ⟨p.filled, p.distinct, fun _ _ => rfl⟩

variable {token : Value} {page : List α × String} {rest : List (List α × String)}

theorem Advances.leads (h : Advances token (page :: rest)) :
    (!(Value.text page.2).isTruthy || (Value.text page.2).eqv token) = false := by
  have hne : page.2 ≠ "" := fun he => h.filled (by simp [he])
  rw [h.fresh page.2 (by simp)]
  simp [Value.isTruthy, hne]

theorem Advances.later (h : Advances token (page :: rest)) : Advances (.text page.2) rest := by
  have hd := h.distinct
  rw [List.map_cons, List.nodup_cons] at hd
  refine ⟨fun hm => h.filled (List.mem_cons_of_mem _ hm), hd.2, fun s hs => ?_⟩
  simp only [Value.eqv, beq_eq_false_iff_ne]
  rintro rfl
  exact hd.1 hs

/-! ### Going through the pages -/

/-- What comes of going through pages, from what comes of each. -/
def gather (f : Part α → Except ε (List β)) : List (Part α) → Except ε (List β)
  | [] => .ok []
  | a :: parts => do
    let found ← f a
    let more ← gather f parts
    .ok (found ++ more)

/-- If every item of every page is read by itself, the pages are read like one list. -/
theorem gather_mapM {f : Part α → Except ε (List β)} {read : α → Except ε β}
    {parts : List (Part α)} (h : ∀ a ∈ parts, f a = a.items.mapM read) :
    gather f parts = (parts.flatMap Part.items).mapM read := by
  induction parts with
  | nil => rfl
  | cons a parts ih =>
      rw [List.forall_mem_cons] at h
      rw [gather, h.1, ih h.2, List.flatMap_cons, List.mapM_append]
      rfl

/-- Nothing comes of the pages if nothing comes of one of them. -/
theorem gather_failed {f : Part α → Except ε (List β)} {parts : List (Part α)} {a : Part α} {e : ε}
    (ha : a ∈ parts) (he : f a = .error e) : ∃ e, gather f parts = .error e := by
  induction parts with
  | nil => simp at ha
  | cons b parts ih =>
      rw [gather]
      cases hb : f b with
      | error e => exact ⟨e, rfl⟩
      | ok found =>
          obtain rfl | ha := List.mem_cons.mp ha
          · rw [he] at hb
            cases hb
          · obtain ⟨e, hparts⟩ := ih ha
            exact ⟨e, by rw [hparts]; rfl⟩

end Paged

namespace Reading

variable {answer : TableCall → TableReply} {q : RowQuery}

/-- Read rows where every question has its answer, with a bound on the questions. -/
def against (answer : TableCall → TableReply) (q : RowQuery) :
    Nat → Reading → Except SourceError (List Row)
  | 0, _ => .error .unfinished
  | bound + 1, r =>
    match r.resume q (answer (r.call q)) with
    | .rows rows => .ok rows
    | .failed e => .error e
    | .ask r => against answer q bound r

/-- Whether a reply is a page with the records and the token after it, or the failure to read
them. -/
def IsPage (reply : TableReply) (next : Option String) : Except SourceError (List Record) → Prop
  | .error e => reply = .failed e
  | .ok records =>
    ∃ token, reply = .page ⟨records, next.isSome, token⟩ ∧ ∀ s, next = some s → token = .text s

/-- The rows of records, or that a cell cannot be written. -/
def rowsOf (columns : List Column) (records : List Record) : Except SourceError (List Row) :=
  (Row.ofRecords columns records).mapError .fault

/-- What is left to do when all records are there. -/
def finish (answer : TableCall → TableReply) (q : RowQuery) (bound : Nat) (records : List Record) :
    Except SourceError (List Row) :=
  if hasView q then against answer q bound (.opening records) else rowsOf q.columns records

theorem against_rows {r : Reading} {records : List Record} (bound : Nat)
    (h : r.resume q (answer (r.call q)) = .ofRows (Row.ofRecords q.columns records)) :
    against answer q (bound + 1) r = rowsOf q.columns records := by
  rw [against, h, rowsOf]
  cases Row.ofRecords q.columns records <;> rfl

theorem against_last (found records : List Record) (token next : Value) (pages bound : Nat)
    (h : answer (.records q.pageSize token) = .page ⟨records, false, next⟩) :
    against answer q (bound + 1) (.paging found token pages) =
      finish answer q bound (found ++ records) := by
  rw [finish]
  cases hv : hasView q with
  | true => simp [against, call, h, resume, afterPage, hv]
  | false => exact against_rows bound (by simp [call, h, resume, afterPage, hv])

theorem against_early (found records : List Record) (token next : Value) (pages bound : Nat)
    (h : answer (.records q.pageSize token) = .page ⟨records, true, next⟩)
    (hn : (!next.isTruthy || next.eqv token) = false) :
    against answer q (bound + 1) (.paging found token pages) =
      against answer q bound (.paging (found ++ records) next (pages + 1)) := by
  rw [against, call, h]
  simp only [resume, afterPage, hn, if_true, Bool.false_eq_true, if_false]

theorem against_failed {r : Reading} {e : SourceError} (bound : Nat)
    (h : answer (r.call q) = .failed e) : against answer q (bound + 1) r = .error e := by
  rw [against, h]
  cases r <;> rfl

/-- The pages are gone through in their order. -/
theorem against_paging (f : Part α → Except SourceError (List Record)) (last : List α)
    (early : List (List α × String)) {token : Value} (ht : Paged.Advances token early)
    (hp : ∀ a ∈ Paged.partsFrom last token early,
      IsPage (answer (.records q.pageSize a.token)) a.next (f a))
    (found : List Record) (pages bound : Nat) :
    against answer q (early.length + bound + 1) (.paging found token pages) =
      Paged.gather f (Paged.partsFrom last token early) >>= fun records =>
        finish answer q bound (found ++ records) := by
  induction early generalizing token found pages with
  | nil =>
      have h := hp ⟨token, last, none⟩ (by simp [Paged.partsFrom])
      rw [List.length_nil, Nat.zero_add, Paged.partsFrom, Paged.gather, Paged.gather]
      cases hf : f ⟨token, last, none⟩ with
      | error e =>
          rw [hf] at h
          exact against_failed bound h
      | ok records =>
          rw [hf] at h
          obtain ⟨next, hreply, -⟩ := h
          rw [against_last found records token next pages bound hreply]
          exact congrArg _ (by rw [List.append_nil])
  | cons page rest ih =>
      obtain ⟨items, next⟩ := page
      rw [Paged.partsFrom, List.forall_mem_cons] at hp
      have h := hp.1
      rw [List.length_cons, Nat.add_right_comm _ 1 bound, Paged.partsFrom, Paged.gather]
      cases hf : f ⟨token, items, some next⟩ with
      | error e =>
          rw [hf] at h
          exact against_failed _ h
      | ok records =>
          rw [hf] at h
          obtain ⟨value, hreply, hnext⟩ := h
          obtain rfl := hnext next rfl
          rw [against_early found records token _ pages _ hreply ht.leads, ih ht.later hp.2]
          cases Paged.gather f (Paged.partsFrom last (.text next) rest) with
          | error e => rfl
          | ok more =>
              change finish answer q bound (found ++ records ++ more) =
                finish answer q bound (found ++ (records ++ more))
              rw [List.append_assoc]

/-- Whether a reading without a view or with one gets the order of the records. -/
inductive Orders (answer : TableCall → TableReply) (q : RowQuery) :
    Option (Except SourceError (List String)) → Prop
  | storage : hasView q = false → Orders answer q none
  | view {handle : ViewHandle} {ids : List String} : hasView q = true →
      answer (.view q.viewId) = .view handle → answer (.visibleIds handle) = .visibleIds ids →
      Orders answer q (some (.ok ids))
  | failed {handle : ViewHandle} {e : SourceError} : hasView q = true →
      answer (.view q.viewId) = .view handle → answer (.visibleIds handle) = .failed e →
      Orders answer q (some (.error e))

/-- The records in storage order, or those that a view shows in its order. -/
def ordered (view : Option (Except SourceError (List String))) (records : List Record) :
    Except SourceError (List Record) :=
  match view with
  | none => .ok records
  | some ids => ids.map (visible records)

theorem against_opening {handle : ViewHandle} (records : List Record) (bound : Nat)
    (h : answer (.view q.viewId) = .view handle) :
    against answer q (bound + 1) (.opening records) =
      against answer q bound (.ordering records handle) := by
  rw [against, call, h, resume]

theorem against_ordering {handle : ViewHandle} {ids : List String} (records : List Record)
    (bound : Nat) (h : answer (.visibleIds handle) = .visibleIds ids) :
    against answer q (bound + 1) (.ordering records handle) =
      rowsOf q.columns (visible records ids) :=
  against_rows bound (by rw [call, h, resume])

theorem finish_ordered {view : Option (Except SourceError (List String))}
    (h : Orders answer q view) (records : List Record) (bound : Nat) :
    finish answer q (bound + 2) records = ordered view records >>= rowsOf q.columns := by
  cases h with
  | storage hv =>
      rw [finish, if_neg (by simp [hv])]
      rfl
  | view hv hview hids =>
      rw [finish, if_pos hv, against_opening records (bound + 1) hview,
        against_ordering records bound hids]
      rfl
  | failed hv hview hids =>
      rw [finish, if_pos hv, against_opening records (bound + 1) hview]
      exact against_failed bound hids

/-- A reading comes to the rows of all records on the pages, in storage order or in that of the
view. It takes one question for each page and two for the view. -/
theorem against_pages (f : Part α → Except SourceError (List Record)) (p : Paged α)
    {view : Option (Except SourceError (List String))} (hv : Orders answer q view)
    (hp : ∀ a ∈ p.parts, IsPage (answer (.records q.pageSize a.token)) a.next (f a))
    {bound : Nat} (hb : p.early.length + 3 ≤ bound) :
    against answer q bound .start =
      Paged.gather f p.parts >>= fun records => ordered view records >>= rowsOf q.columns := by
  obtain ⟨more, rfl⟩ := Nat.exists_eq_add_of_le hb
  rw [show p.early.length + 3 + more = p.early.length + (more + 2) + 1 by omega, start,
    against_paging f p.last p.early p.advances hp [] 0]
  refine congrArg _ (funext fun records => ?_)
  rw [finish_ordered hv, List.nil_append]

end Reading

end TableAudit

/-!
## Fetching all records

A reading first fetches the records page by page. It has them all when a page promises no more;
then the view is opened, if there is one, and the rows are made.
-/

namespace TableAudit.Reading

variable {answer : TableCall → TableReply} {q : RowQuery} {size : Number} {token next : Value}
variable {α : Type} {found : List Record} {pages bound : Nat}

/-- A query that has a view, so that its reading goes on when all records are there. -/
def pagesOnly (size : Number) : RowQuery :=
  ⟨[], .text "", size⟩

/-- The records that a reading has when it opens the view, if it gets there within a bound, and the
questions up to then. -/
def fetch (answer : TableCall → TableReply) (size : Number) :
    Nat → Reading → Option (Except SourceError (List Record)) × List TableCall
  | 0, _ => (none, [])
  | bound + 1, r =>
    let call := r.call (pagesOnly size)
    match r.resume (pagesOnly size) (answer call) with
    | .ask (.opening records) => (some (.ok records), [call])
    | .ask r =>
      let (records, calls) := fetch answer size bound r
      (records, call :: calls)
    | .failed e => (some (.error e), [call])
    | .rows _ => (none, [call])

/-- What the page of a token leads to. -/
def turn (answer : TableCall → TableReply) (size : Number) (token : Value) :
    Except SourceError (Option Value) :=
  match answer (.records size token) with
  | .page p =>
    if p.hasMore then
      if !p.token.isTruthy || p.token.eqv token then .error (stalled 1 p.token)
      else .ok (some p.token)
    else .ok none
  | .failed e => .error e
  | _ => .error (.fault .wrongKind)

theorem isSound_stalled_iff (pages : Nat) (token : Value) :
    IsSound (.error (stalled pages token) : Except SourceError α) ↔ token.isWritable = true := by
  rw [stalled]
  split
  · exact iff_of_true (isSound_failure _) ‹_›
  · exact iff_of_false (not_isSound_fault _) ‹_›

/-! ### One page -/

/-- One round of the fetching: a page is asked for, and then it ends or goes on with the next. -/
theorem fetch_round (answer : TableCall → TableReply) (size : Number) (found : List Record)
    (token : Value) (pages bound : Nat) :
    fetch answer size (bound + 1) (.paging found token pages) =
      match answer (.records size token) with
      | .page p =>
        if p.hasMore then
          if !p.token.isTruthy || p.token.eqv token then
            (some (.error (stalled (pages + 1) p.token)), [.records size token])
          else
            let later := fetch answer size bound (.paging (found ++ p.records) p.token (pages + 1))
            (later.1, .records size token :: later.2)
        else (some (.ok (found ++ p.records)), [.records size token])
      | .failed e => (some (.error e), [.records size token])
      | _ => (some (.error (.fault .wrongKind)), [.records size token]) := by
  rw [fetch]
  cases hreply : answer (.records size token) with
  | page p =>
      simp only [call, pagesOnly, hreply, resume, afterPage, hasView]
      cases p.hasMore with
      | false => rfl
      | true => cases !p.token.isTruthy || p.token.eqv token <;> rfl
  | _ => simp only [call, pagesOnly, hreply, resume]

theorem fetch_leads (h : nextOf (turn answer size) token = some next) (found : List Record)
    (pages : Nat) :
    ∃ records, ∀ bound, fetch answer size (bound + 1) (.paging found token pages) =
      ((fetch answer size bound (.paging records next (pages + 1))).1,
        .records size token :: (fetch answer size bound (.paging records next (pages + 1))).2) := by
  rw [nextOf_eq_some, turn] at h
  cases hreply : answer (.records size token) with
  | page p =>
      rw [hreply] at h
      cases hmore : p.hasMore with
      | false => simp [hmore] at h
      | true =>
          cases hstalls : !p.token.isTruthy || p.token.eqv token with
          | true => simp only [hmore, hstalls, if_true, reduceCtorEq] at h
          | false =>
              simp only [hmore, hstalls, if_true, Bool.false_eq_true, if_false] at h
              obtain rfl := Option.some.inj (Except.ok.inj h)
              refine ⟨found ++ p.records, fun bound => ?_⟩
              simp only [fetch_round, hreply, hmore, hstalls, if_true, Bool.false_eq_true, if_false]
  | _ => simp [hreply] at h

/-- At a page that leads nowhere the fetching ends, as soundly as the page says. -/
theorem fetch_ends (h : nextOf (turn answer size) token = none) (found : List Record)
    (pages : Nat) :
    ∃ r, (∀ bound, fetch answer size (bound + 1) (.paging found token pages) =
        (some r, [.records size token])) ∧
      (IsSound r ↔ IsSound (turn answer size token)) := by
  rw [nextOf] at h
  cases hreply : answer (.records size token) with
  | page p =>
      have hturn : turn answer size token = if p.hasMore then
          if !p.token.isTruthy || p.token.eqv token then .error (stalled 1 p.token)
          else .ok (some p.token) else .ok none := by rw [turn, hreply]
      rw [hturn] at h ⊢
      cases hmore : p.hasMore with
      | false =>
          refine ⟨.ok (found ++ p.records), fun bound => ?_, ?_⟩
          · simp only [fetch_round, hreply, hmore, Bool.false_eq_true, if_false]
          · exact iff_of_true (isSound_ok _) (isSound_ok none)
      | true =>
          cases hstalls : !p.token.isTruthy || p.token.eqv token with
          | false => simp [hmore, hstalls] at h
          | true =>
              refine ⟨.error (stalled (pages + 1) p.token), fun bound => ?_, ?_⟩
              · simp only [fetch_round, hreply, hmore, hstalls, if_true]
              · exact (isSound_stalled_iff _ _).trans (isSound_stalled_iff 1 p.token).symm
  | failed e =>
      refine ⟨.error e, fun bound => ?_, ?_⟩
      · simp only [fetch_round, hreply]
      · rw [turn, hreply]
        exact isSound_error_congr e
  | _ =>
      refine ⟨.error (.fault .wrongKind), fun bound => ?_, ?_⟩
      · simp only [fetch_round, hreply]
      · rw [turn, hreply]
        exact isSound_error_congr _

/-- Records are fetched in rounds, which keep the records that were found and count the pages. -/
theorem fetch_rounds (answer : TableCall → TableReply) (size : Number) :
    Rounds (turn answer size) (TableCall.records size)
      (fun bound (s : List Record × Nat) token =>
        (fetch answer size bound (.paging s.1 token s.2)).2)
      fun bound s token => (fetch answer size bound (.paging s.1 token s.2)).1 where
  spent s token := ⟨rfl, rfl⟩
  another s token next hnext := by
    obtain ⟨records, hround⟩ := fetch_leads hnext s.1 s.2
    exact ⟨(records, s.2 + 1), fun bound => by simp only [hround bound, and_self]⟩
  last s token hnext := by
    obtain ⟨r, hround, hsound⟩ := fetch_ends hnext s.1 s.2
    exact ⟨r, hsound, fun bound => by simp only [hround bound, and_self]⟩

/-- The records of a table are gone through token by token. -/
theorem fetch_follows (answer : TableCall → TableReply) (size : Number) :
    Follows (turn answer size) (TableCall.records size)
      (fun bound => (fetch answer size bound .start).2)
      fun bound => (fetch answer size bound .start).1 :=
  (fetch_rounds answer size).follows ([], 0)

/-! ### Rows of the fetched records -/

/-- What is left to do with all records takes two questions at most. -/
theorem finish_within (answer : TableCall → TableReply) (q : RowQuery) (bound : Nat)
    (records : List Record) :
    finish answer q (bound + 2) records = finish answer q 2 records := by
  rw [finish, finish]
  cases hview : answer (.view q.viewId) with
  | view handle =>
      have hordering (bound : Nat) : against answer q (bound + 1) (.ordering records handle) =
          against answer q 1 (.ordering records handle) := by
        rw [against, against, call]
        cases answer (.visibleIds handle) with
        | visibleIds ids =>
            rw [resume]
            cases Row.ofRecords q.columns (visible records ids) <;> rfl
        | _ => rfl
      rw [against_opening records (bound + 1) hview, against_opening records 1 hview, hordering]
  | _ => simp only [against, call, hview, resume]

/-- The rows are made of the records that are fetched. -/
theorem against_fetched {x : Except SourceError (List Record)}
    (h : (fetch answer q.pageSize bound (.paging found token pages)).1 = some x) :
    against answer q (bound + 2) (.paging found token pages) = x >>= finish answer q 2 := by
  induction bound generalizing token found pages with
  | zero => cases h
  | succ bound ih =>
      rw [fetch_round] at h
      cases hreply : answer (.records q.pageSize token) with
      | page p =>
          obtain ⟨records, hasMore, next⟩ := p
          simp only [hreply] at h
          cases hasMore with
          | false =>
              obtain rfl := Option.some.inj h
              rw [against_last found records token next pages (bound + 2) hreply, finish_within]
              rfl
          | true =>
              cases hstalls : !next.isTruthy || next.eqv token with
              | true =>
                  simp only [hstalls, if_true] at h
                  obtain rfl := Option.some.inj h
                  simp only [against, call, hreply, resume, afterPage, hstalls, if_true]
                  rfl
              | false =>
                  simp only [hstalls, if_true, Bool.false_eq_true, if_false] at h
                  rw [against_early found records token next pages (bound + 2) hreply hstalls]
                  exact ih h
      | failed e =>
          simp only [hreply] at h
          obtain rfl := Option.some.inj h
          rw [against_failed (bound + 2) hreply]
          rfl
      | _ =>
          simp only [hreply] at h
          obtain rfl := Option.some.inj h
          simp only [against, call, hreply, resume]
          rfl

end TableAudit.Reading
