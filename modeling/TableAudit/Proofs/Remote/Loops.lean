import TableAudit.Proofs.Remote.Exchange
import TableAudit.Proofs.Source.Loops

/-!
# Loops over the pages of a remote interface

An exchange puts requests to a service, in their order. The columns of a table and the records that
a view shows come in pages that are asked for by token.
-/

namespace TableAudit

namespace Http.Talk

variable {α β : Type} {service : Request → Reply} {now : Calendar.Moment}

/-- The requests in the course of a talk with a service. -/
def requests (service : Request → Reply) (now : Calendar.Moment) : Talk α → List Request
  | done _ => []
  | send r next => r :: (next (service r)).requests service now
  | note _ next => next.requests service now
  | print _ next => next.requests service now
  | pause _ next => next.requests service now
  | look next => (next now).requests service now

theorem requests_bind (t : Talk α) (f : α → Talk β) :
    (t >>= f).requests service now =
      t.requests service now ++ (f (t.answered service now)).requests service now := by
  change (t.bind f).requests service now = _
  induction t with
  | done a => rfl
  | send r next ih => exact congrArg (r :: ·) (ih (service r))
  | note l next ih => exact ih
  | print s next ih => exact ih
  | pause w next ih => exact ih
  | look next ih => exact ih now

end Http.Talk

namespace Remote

open TableAudit.Http

variable {σ α β : Type} {service : Request → Reply} {now : Calendar.Moment} {r : Request}

namespace Exchange

/-- The requests that an exchange puts to a service. -/
def asks (service : Request → Reply) (now : Calendar.Moment) (x : Exchange σ α) (m : σ) :
    List Request :=
  (x.run.run m).requests service now

/-- An exchange goes on with more requests unless it has ended with an error. -/
theorem asks_bind (x : Exchange σ α) (f : α → Exchange σ β) (m : σ) :
    asks service now (x >>= f) m = asks service now x m ++
      match outcome service now x m with
      | (.ok a, m') => asks service now (f a) m'
      | (.error _, _) => [] := by
  change Talk.requests service now ((x.run.run m) >>= fun p => _) = _
  rw [Talk.requests_bind, asks, outcome]
  congr 1
  obtain ⟨result, m'⟩ := (x.run.run m).answered service now
  cases result <;> rfl

theorem asks_lift (x : Except SourceError α) (m : Memory) :
    asks service now (lift x) m = [] := by
  cases x <;> rfl

end Exchange

open Exchange

theorem asks_exchange (hr : r.body = none) (m : σ) : asks service now (exchange r) m = [r] := by
  have hs : sendable r = .ok r := by rw [sendable, hr]
  have hlift {γ : Type} (x : Except SourceError γ) :
      asks service now (exchange.liftExcept x : Exchange σ γ) m = [] := by
    cases x <;> rfl
  rw [exchange, asks_bind, hs, hlift]
  change [] ++ asks service now (Exchange.request r >>= _) m = _
  rw [asks_bind]
  change [] ++ ([r] ++ asks service now (exchange.liftExcept _) m) = _
  rw [hlift]
  rfl

end Remote

end TableAudit

namespace TableAudit.Remote

open TableAudit.Http Exchange

variable {α : Type} {service : Request → Reply} {now : Calendar.Moment} {m : Memory}
variable {request : Value → Request} {read : List Value → Except SourceError (List α)}
variable {token : Value} {bound : Nat}

/-- What the page of a token leads to. -/
def turn (service : Request → Reply) (request : Value → Request)
    (read : List Value → Except SourceError (List α)) (token : Value) :
    Except SourceError (Option Value) :=
  (pageAt service request read token).map fun page => leadsTo page.1 token

/-- A result, unless more pages were promised than were allowed for. -/
def finished (x : Except SourceError α) : Option (Except SourceError α) :=
  match x with
  | .error .unfinished => none
  | x => some x

/-- A round asks for one page, and for those after it if the page leads on. -/
theorem asks_round (hbody : (request token).body = none) (stalled : String) (found : List α) :
    asks service now (pagesFrom request read stalled (bound + 1) token found) m =
      request token :: match pageAt service request read token with
      | .error _ => []
      | .ok (data, more) =>
        match leadsTo data token with
        | some next =>
          asks service now (pagesFrom request read stalled bound next (found ++ more)) m
        | none => [] := by
  rw [pagesFrom_round, asks_bind, outcome_exchange hbody, asks_exchange hbody, pageAt]
  cases opened service (request token) with
  | error e => rfl
  | ok data =>
      simp only [asks_bind, outcome_lift, asks_lift, ok_bind, List.nil_append, List.singleton_append]
      cases itemsOf data >>= read with
      | error e => rfl
      | ok more =>
          simp only [ok_bind]
          cases leadsTo data token with
          | some next => rfl
          | none =>
              simp only
              split <;> rfl

theorem nextOf_error {e : SourceError} (h : pageAt service request read token = .error e) :
    nextOf (turn service request read) token = none := by
  rw [nextOf, turn, h]
  rfl

theorem nextOf_page {page : Value × List α} (h : pageAt service request read token = .ok page) :
    nextOf (turn service request read) token = leadsTo page.1 token := by
  rw [nextOf, turn, h]
  rfl

/-- The pages of a list are asked for in rounds, which keep the items that were found. -/
theorem pagesFrom_rounds (hbody : ∀ token, (request token).body = none)
    (hpages : ∀ token, pageAt service request read token ≠ .error .unfinished) (stalled : String) :
    Rounds (turn service request read) request
      (fun bound found token =>
        asks service now (pagesFrom request read stalled bound token found) m)
      fun bound found token =>
        finished (outcome service now (pagesFrom request read stalled bound token found) m).1 where
  spent found token := ⟨rfl, rfl⟩
  another found token next hnext := by
    cases hpage : pageAt service request read token with
    | error e =>
        rw [nextOf_error hpage] at hnext
        cases hnext
    | ok page =>
        rw [nextOf_page hpage] at hnext
        refine ⟨found ++ page.2, fun bound => ?_⟩
        simp only [asks_round (hbody token), outcome_round (hbody token), hpage, hnext, and_self]
  last found token hnext := by
    cases hpage : pageAt service request read token with
    | error e =>
        refine ⟨.error e, ?_, fun bound => ?_⟩
        · rw [turn, isSound_map_iff, hpage]
          exact isSound_error_congr e
        · simp only [asks_round (hbody token), outcome_round (hbody token), hpage, true_and]
          cases e with
          | unfinished => exact absurd hpage (hpages token)
          | _ => rfl
    | ok page =>
        have hturn : IsSound (turn service request read token) := by
          rw [turn, isSound_map_iff, hpage]
          exact isSound_ok _
        rw [nextOf_page hpage] at hnext
        by_cases hmore : (page.1.get "has_more").isTruthy
        · refine ⟨.error (.failure stalled), iff_of_true (isSound_failure stalled) hturn,
            fun bound => ?_⟩
          simp only [asks_round (hbody token), outcome_round (hbody token), hpage, hnext, hmore,
            if_true, finished, and_self]
        · refine ⟨.ok (found ++ page.2), iff_of_true (isSound_ok _) hturn, fun bound => ?_⟩
          simp only [asks_round (hbody token), outcome_round (hbody token), hpage, hnext, hmore,
            Bool.false_eq_true, if_false, finished, and_self]

/-! ### Columns and visible records -/

/-- What goes wrong on the way to a payload is a failure with a message. -/
theorem isSound_opened (service : Request → Reply) (r : Request) : IsSound (opened service r) := by
  rw [opened, isSound_bind_iff]
  constructor
  · rw [openReply.eq_def]
    repeat' split
    all_goals first | exact isSound_ok _ | exact isSound_failure _
  · intro envelope _
    rw [openEnvelope]
    repeat' split
    all_goals first | exact isSound_ok _ | exact isSound_failure _

theorem opened_ne_unfinished (service : Request → Reply) (r : Request) :
    opened service r ≠ .error .unfinished := fun h =>
  not_isSound_unfinished (h ▸ isSound_opened service r)

/-! A payload of another shape is at fault, and nothing else goes wrong with it. -/

section

variable {e : SourceError} (he : ∀ f, e ≠ .fault f)

include he

theorem fault_ne_error (f : Fault) : (.error (.fault f) : Except SourceError α) ≠ .error e :=
  fun h => he f (Except.error.inj h).symm

theorem attribute?_ne_error (v : Value) (key : String) : attribute? v key ≠ .error e := by
  rw [attribute?]
  split
  · exact ok_ne_error _ _
  · exact fault_ne_error he _

theorem itemsOf_ne_error (data : Value) : itemsOf data ≠ .error e := by
  apply bind_ne_error (attribute?_ne_error he data _)
  intro items
  split
  · rw [listItems.eq_def]
    split
    · exact ok_ne_error _ _
    all_goals exact fault_ne_error he _
  · exact ok_ne_error _ _

theorem columnOf_ne_error (item : Value) : columnOf item ≠ .error e := by
  rw [columnOf]
  split
  · split
    · exact fault_ne_error he _
    · exact ok_ne_error _ _
  · exact fault_ne_error he _

theorem recordIdOf_ne_error (item : Value) : recordIdOf item ≠ .error e := by
  rw [recordIdOf, attribute?]
  split
  · exact ok_ne_error _ _
  · exact fault_ne_error he _

theorem cellsOf_ne_error (names : Names) (fields : Value) : cellsOf names fields ≠ .error e := by
  rw [cellsOf.eq_def]
  split
  · split
    · exact ok_ne_error _ _
    · exact fault_ne_error he _
  · exact ok_ne_error _ _

theorem changeTime_ne_error (v : Value) : changeTime v ≠ .error e := by
  rw [changeTime.eq_def]
  split
  · exact ok_ne_error _ _
  · exact ok_ne_error _ _
  · exact fault_ne_error he _
  · split
    · exact ok_ne_error _ _
    · exact fault_ne_error he _
  · exact ok_ne_error _ _

theorem recordOf_ne_error (names : Names) (item : Value) : recordOf names item ≠ .error e := by
  apply bind_ne_error
  · apply bind_ne_error (attribute?_ne_error he item _)
    exact cellsOf_ne_error he names
  · intro cells
    apply bind_ne_error (changeTime_ne_error he _)
    exact fun time => ok_ne_error _ _

end

theorem unfinished_ne_fault (f : Fault) : SourceError.unfinished ≠ .fault f :=
  nofun

theorem pageAt_ne_unfinished (hread : ∀ items, read items ≠ .error .unfinished) (token : Value) :
    pageAt service request read token ≠ .error .unfinished := by
  apply bind_ne_error (opened_ne_unfinished service _)
  intro data
  apply bind_ne_error (bind_ne_error (itemsOf_ne_error unfinished_ne_fault data) hread)
  exact fun more => ok_ne_error _ _

theorem columnsOf_ne_unfinished (items : List Value) : columnsOf items ≠ .error .unfinished := by
  rw [columnsOf_eq]
  exact mapM_ne_error (columnOf_ne_error unfinished_ne_fault)

theorem recordIdsOf_ne_unfinished (items : List Value) :
    recordIdsOf items ≠ .error .unfinished :=
  mapM_ne_error (recordIdOf_ne_error unfinished_ne_fault)

/-- Remembering the columns takes no request and keeps the result. -/
theorem fields_eq_pages (l : Location) (bound : Nat) :
    asks service now (fields l bound) m = asks service now (pagesFrom (fieldsRequest l) columnsOf
        "field pagination stalled" bound .null []) m ∧
      (outcome service now (fields l bound) m).1 = (outcome service now (pagesFrom (fieldsRequest l)
        columnsOf "field pagination stalled" bound .null []) m).1 := by
  rw [fields, asks_bind, outcome_bind]
  generalize outcome service now (pagesFrom _ _ _ _ _ _) m = found
  obtain ⟨result, m'⟩ := found
  cases result with
  | error e => exact ⟨List.append_nil _, rfl⟩
  | ok columns => exact ⟨List.append_nil _, rfl⟩

/-- The columns of a table are gone through token by token. -/
theorem fields_follows (service : Request → Reply) (now : Calendar.Moment) (l : Location)
    (m : Memory) :
    Follows (turn service (fieldsRequest l) columnsOf) (fieldsRequest l)
      (fun bound => asks service now (fields l bound) m)
      fun bound => finished (outcome service now (fields l bound) m).1 := by
  simp only [fields_eq_pages]
  exact (pagesFrom_rounds (fun _ => rfl) (pageAt_ne_unfinished columnsOf_ne_unfinished) _).follows []

/-- The records that a view shows are gone through token by token. -/
theorem visibleIds_follows (service : Request → Reply) (now : Calendar.Moment) (l : Location)
    (viewId : String) (m : Memory) :
    Follows (turn service (visibleRequest l viewId) recordIdsOf) (visibleRequest l viewId)
      (fun bound => asks service now (visibleIds l bound viewId) m)
      fun bound => finished (outcome service now (visibleIds l bound viewId) m).1 :=
  (pagesFrom_rounds (fun _ => rfl) (pageAt_ne_unfinished recordIdsOf_ne_unfinished) _).follows []

end TableAudit.Remote
