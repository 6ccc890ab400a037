import TableAudit.Proofs.Remote.Loops

/-!
# Replies in their order

An exchange that is held with replies laid down takes them one by one, whatever it asks for. Past
the last of them every request fails. Of the payloads of a list in pages those arrive that the
tokens lead to, up to the first request that fails.
-/

namespace TableAudit.Http.Talk

variable {α β : Type} {now : Calendar.Moment}

/-- What a talk with replies comes to, and the replies that are left. -/
def ended (now : Calendar.Moment) (t : Talk α) (replies : List Reply) : α × List Reply :=
  ((hold now t replies).result, (hold now t replies).left)

/-- A talk goes on with the replies that are left. -/
theorem ended_bind (t : Talk α) (f : α → Talk β) (replies : List Reply) :
    ended now (t >>= f) replies =
      ended now (f (ended now t replies).1) (ended now t replies).2 := by
  change ended now (t.bind f) replies = _
  induction t generalizing replies with
  | done a => rfl
  | send r next ih =>
      cases replies with
      | nil => exact ih (.error exhaustedText) []
      | cons reply rest => exact ih reply rest
  | note l next ih => exact ih replies
  | print s next ih => exact ih replies
  | pause w next ih => exact ih replies
  | look next ih => exact ih now replies

end TableAudit.Http.Talk

namespace TableAudit.Remote

open TableAudit.Http

variable {σ α β : Type} {now : Calendar.Moment} {r : Request} {replies rest : List Reply}

namespace Exchange

/-- What an exchange with replies comes to, what is remembered then, and the replies that are
left. -/
def held (now : Calendar.Moment) (x : Exchange σ α) (m : σ) (replies : List Reply) :
    Except SourceError α × σ × List Reply :=
  let p := Talk.ended now (x.run.run m) replies
  (p.1.1, p.1.2, p.2)

/-- An exchange goes on with the result and the replies that are left, or ends with the error. -/
theorem held_bind (x : Exchange σ α) (f : α → Exchange σ β) (m : σ) (replies : List Reply) :
    held now (x >>= f) m replies =
      match held now x m replies with
      | (.ok a, m', rest) => held now (f a) m' rest
      | (.error e, m', rest) => (.error e, m', rest) := by
  have hbind : held now (x >>= f) m replies =
      let p := Talk.ended now ((x.run.run m) >>= fun p => ExceptT.bindCont f p.1 p.2) replies
      (p.1.1, p.1.2, p.2) := rfl
  rw [hbind, Talk.ended_bind, held]
  obtain ⟨⟨result, m'⟩, rest⟩ := Talk.ended now (x.run.run m) replies
  cases result <;> rfl

theorem held_lift (x : Except SourceError α) (m : Memory) (replies : List Reply) :
    held now (lift x) m replies = (x, m, replies) := by
  cases x <;> rfl

/-- Two exchanges in turn yield a value or a failure if the first does, and the second where it is
come to. -/
theorem yields_held_bind {P : β → Prop} (x : Exchange σ α) (f : α → Exchange σ β) (m : σ)
    (replies : List Reply) :
    Yields P (held now (x >>= f) m replies).1 ↔ IsSound (held now x m replies).1 ∧
      ∀ a m' rest, held now x m replies = (.ok a, m', rest) →
        Yields P (held now (f a) m' rest).1 := by
  rw [held_bind]
  obtain ⟨result, m', rest⟩ := held now x m replies
  cases result with
  | ok a => simp [isSound_ok]
  | error e =>
      simp only [Prod.mk.injEq, reduceCtorEq, false_and, false_implies, implies_true, and_true]
      exact yields_error_iff.trans (isSound_error_congr e)

theorem held_map (x : Exchange σ α) (g : α → β) (m : σ) (replies : List Reply) :
    held now (x >>= fun a => pure (g a)) m replies =
      ((held now x m replies).1.map g, (held now x m replies).2) := by
  rw [held_bind]
  obtain ⟨result, m', rest⟩ := held now x m replies
  cases result <;> rfl

end Exchange

open Exchange

/-- The payload of a reply to a request. -/
def payloadOf (r : Request) (reply : Reply) : Except SourceError Value :=
  openReply r reply >>= openEnvelope r

theorem isSound_payloadOf (r : Request) (reply : Reply) : IsSound (payloadOf r reply) :=
  isSound_opened (fun _ => reply) r

/-- The next reply. Past the last one there is a failure. -/
def nextReply (replies : List Reply) : Reply :=
  replies.headD (.error exhaustedText)

theorem nextReply_cons (reply : Reply) (rest : List Reply) : nextReply (reply :: rest) = reply :=
  rfl

theorem held_exchange (r : Request) (m : σ) (replies : List Reply) :
    held now (exchange r) m replies =
      match sendable r with
      | .ok r => (payloadOf r (nextReply replies), m, replies.tail)
      | .error e => (.error e, m, replies) := by
  have hlift {γ : Type} (x : Except SourceError γ) (replies : List Reply) :
      held now (exchange.liftExcept x : Exchange σ γ) m replies = (x, m, replies) := by
    cases x <;> rfl
  rw [exchange, held_bind, hlift]
  cases sendable r with
  | error e => rfl
  | ok r =>
      have hrequest : held now (Exchange.request r) m replies =
          (.ok (nextReply replies), m, replies.tail) := by
        cases replies <;> rfl
      simp only [held_bind, hrequest]
      exact hlift _ _

theorem held_exchange_bare (hr : r.body = none) (m : σ) (replies : List Reply) :
    held now (exchange r) m replies = (payloadOf r (nextReply replies), m, replies.tail) := by
  have hs : sendable r = .ok r := by rw [sendable, hr]
  rw [held_exchange, hs]

/-! ### Lists in pages -/

variable {request : Value → Request} {f : Value → Except SourceError α} {token : Value}
variable {bound : Nat} {P : α → Prop}

/-- The payloads of a list in pages that arrive. -/
def arrivals (request : Value → Request) : List Reply → Value → List Value
  | [], _ => []
  | reply :: rest, token =>
    match payloadOf (request token) reply with
    | .error _ => []
    | .ok data =>
      data ::
        match leadsTo data token with
        | some next => arrivals request rest next
        | none => []

/-- A payload is a mapping with a list of items, if any, all of which fit. -/
structure ListFits (Fits : Value → Prop) (data : Value) : Prop where
  mapping : data.isMap = true
  items : (data.get "items").isTruthy = true →
    ∃ items, data.get "items" = .list items ∧ ∀ item ∈ items, Fits item

/-- The items of a payload as they are read. -/
def itemsRead (f : Value → Except SourceError α) (data : Value) : Except SourceError (List α) :=
  itemsOf data >>= fun items => items.mapM f

theorem attribute?_eq {v : Value} (h : v.isMap = true) (key : String) :
    attribute? v key = .ok (v.get key) :=
  if_pos h

/-- The items of a payload are read just if the payload fits. -/
theorem itemsRead_ok_iff {data : Value} :
    (∃ found, itemsRead f data = .ok found ∧ ∀ a ∈ found, P a) ↔
      ListFits (fun item => ∃ a, f item = .ok a ∧ P a) data := by
  cases hmap : data.isMap with
  | false =>
      have hitems : itemsRead f data = .error (.fault .noAttribute) := by
        rw [itemsRead, itemsOf, attribute?, if_neg (by simp [hmap])]
        rfl
      constructor
      · rintro ⟨found, h, -⟩
        rw [hitems] at h
        cases h
      · intro h
        rw [h.mapping] at hmap
        cases hmap
  | true =>
      rw [itemsRead, itemsOf, attribute?_eq hmap, ok_bind]
      cases htrue : (data.get "items").isTruthy with
      | false =>
          refine ⟨fun _ => ⟨hmap, fun h => ?_⟩, fun _ => ⟨[], rfl, List.forall_mem_nil _⟩⟩
          rw [htrue] at h
          cases h
      | true =>
          rw [if_pos rfl]
          constructor
          · rintro ⟨found, h, hP⟩
            refine ⟨hmap, fun _ => ?_⟩
            cases hitems : data.get "items" with
            | list items =>
                rw [hitems] at h
                exact ⟨items, rfl, exists_mapM_iff.mp ⟨found, h, hP⟩⟩
            | _ =>
                rw [hitems] at h
                cases h
          · intro h
            obtain ⟨items, hitems, hfits⟩ := h.items htrue
            rw [hitems]
            exact exists_mapM_iff.mpr hfits

theorem exists_itemsRead_iff {data : Value} :
    (∃ found, itemsRead f data = .ok found) ↔
      ListFits (fun item => ∃ a, f item = .ok a) data := by
  have h : (∃ found, itemsRead f data = .ok found ∧ ∀ a ∈ found, (fun _ => True) a) ↔ _ :=
    itemsRead_ok_iff
  simpa using h

theorem failure_ne_fault (message : String) (f : Fault) : SourceError.failure message ≠ .fault f :=
  nofun

/-- No payload is at fault with a message. -/
theorem itemsRead_ne_failure (hf : ∀ item message, f item ≠ .error (.failure message))
    (data : Value) (message : String) : itemsRead f data ≠ .error (.failure message) := by
  apply bind_ne_error (itemsOf_ne_error (failure_ne_fault message) data)
  exact fun items => mapM_ne_error fun item => hf item message

/-- One round of a loop with replies: a request, and then the end or the next round. -/
theorem held_round (hbody : (request token).body = none) (stalled : String) (found : List α)
    (m : Memory) (replies : List Reply) :
    held now (pagesFrom request (·.mapM f) stalled (bound + 1) token found) m replies =
      match payloadOf (request token) (nextReply replies) with
      | .error e => (.error e, m, replies.tail)
      | .ok data =>
        match itemsRead f data with
        | .error e => (.error e, m, replies.tail)
        | .ok more =>
          match leadsTo data token with
          | some next =>
            held now (pagesFrom request (·.mapM f) stalled bound next (found ++ more)) m replies.tail
          | none =>
            if (data.get "has_more").isTruthy then (.error (.failure stalled), m, replies.tail)
            else (.ok (found ++ more), m, replies.tail) := by
  rw [pagesFrom_round, held_bind, held_exchange_bare hbody]
  cases payloadOf (request token) (nextReply replies) with
  | error e => rfl
  | ok data =>
      simp only [held_bind, held_lift, itemsRead]
      cases itemsOf data >>= fun items => items.mapM f with
      | error e => rfl
      | ok more =>
          simp only
          cases leadsTo data token with
          | some next => rfl
          | none =>
              simp only
              split <;> rfl

/-- A loop over pages is sound just if every payload that arrives can be read. -/
theorem isSound_pagesFrom (hbody : ∀ token, (request token).body = none)
    (hf : ∀ item message, f item ≠ .error (.failure message)) (stalled : String) (m : Memory)
    (hbound : replies.length < bound) (token : Value) (found : List α) :
    IsSound (held now (pagesFrom request (·.mapM f) stalled bound token found) m replies).1 ↔
      ∀ data ∈ arrivals request replies token, ∃ found, itemsRead f data = .ok found := by
  induction replies generalizing bound token found with
  | nil =>
      obtain ⟨k, rfl⟩ := Nat.exists_eq_add_of_lt hbound
      have hreply : payloadOf (request token) (nextReply []) =
          .error (.failure (failureText (request token) exhaustedText)) := rfl
      rw [held_round (hbody token), hreply]
      exact iff_of_true (isSound_failure _) (List.forall_mem_nil _)
  | cons reply rest ih =>
      cases bound with
      | zero => exact absurd hbound (Nat.not_lt_zero _)
      | succ bound =>
          rw [held_round (hbody token), arrivals, nextReply_cons, List.tail_cons]
          have hsound := isSound_payloadOf (request token) reply
          cases hpayload : payloadOf (request token) reply with
          | error e =>
              rw [hpayload] at hsound
              exact iff_of_true ((isSound_error_congr e).mp hsound) (List.forall_mem_nil _)
          | ok data =>
              simp only [List.forall_mem_cons]
              cases hread : itemsRead f data with
              | error e =>
                  refine iff_of_false (fun h => ?_) (by simp)
                  obtain ⟨message, rfl⟩ := isSound_error_iff.mp h
                  exact itemsRead_ne_failure hf data message hread
              | ok more =>
                  simp only [Except.ok.injEq, exists_eq', true_and]
                  cases leadsTo data token with
                  | some next =>
                      exact ih (Nat.lt_of_succ_lt_succ hbound) next (found ++ more)
                  | none =>
                      refine iff_of_true ?_ (List.forall_mem_nil _)
                      simp only
                      split
                      · exact isSound_failure stalled
                      · exact isSound_ok _

/-- All that is found on the pages is of a kind just if all of every payload is. -/
theorem forall_found_iff (hbody : ∀ token, (request token).body = none) (stalled : String)
    (m : Memory) (bound : Nat) (token : Value) (found all : List α)
    (h : (held now (pagesFrom request (·.mapM f) stalled bound token found) m replies).1 = .ok all) :
    (∀ a ∈ all, P a) ↔ (∀ a ∈ found, P a) ∧ ∀ data ∈ arrivals request replies token,
      ∃ found, itemsRead f data = .ok found ∧ ∀ a ∈ found, P a := by
  induction bound generalizing replies token found with
  | zero => cases h
  | succ bound ih =>
      rw [held_round (hbody token)] at h
      cases replies with
      | nil => cases h
      | cons reply rest =>
          rw [nextReply_cons, List.tail_cons] at h
          rw [arrivals]
          cases hpayload : payloadOf (request token) reply with
          | error e =>
              rw [hpayload] at h
              cases h
          | ok data =>
              rw [hpayload] at h
              simp only [List.forall_mem_cons]
              cases hread : itemsRead f data with
              | error e =>
                  simp only [hread] at h
                  cases h
              | ok more =>
                  simp only [hread] at h
                  simp only [Except.ok.injEq, exists_eq_left', ← and_assoc, ← List.forall_mem_append]
                  cases hleads : leadsTo data token with
                  | some next =>
                      simp only [hleads] at h
                      exact ih next (found ++ more) h
                  | none =>
                      simp only [hleads] at h
                      split at h
                      · cases h
                      · obtain rfl := Except.ok.inj h
                        simp

end TableAudit.Remote
