import Mathlib.Data.List.Basic
import TableAudit.Http.Talk
import TableAudit.Notice.Delivery
import TableAudit.Remote.Table

/-!
# The course of a talk

A talk can be held while the clock goes on: whenever it looks at the clock, it sees the next of the
times that are laid down beside the replies. A talk that neither looks nor prints leaves the times
as they are.
-/

namespace TableAudit.Http.Talk

open TableAudit.Calendar (Moment)

variable {α β : Type} {t : Talk α}

/-- What a talk is held with: the times at which it looks at the clock, and the replies. -/
structure Supply where
  times : Nat → Moment
  replies : List Reply

namespace Supply

/-- After a look at the clock. -/
def looked (w : Supply) : Supply :=
  { w with times := fun n => w.times (n + 1) }

/-- The reply to the next request. Past the last one every request fails. -/
def reply (w : Supply) : Reply :=
  w.replies.headD (.error exhaustedText)

/-- After a request. -/
def replied (w : Supply) : Supply :=
  { w with replies := w.replies.tail }

end Supply

/-- How a talk went: its result, what it showed, and what is left of its supply. -/
structure Course (α : Type) where
  result : α
  events : List Event
  left : Supply

/-- The text that an event prints. -/
def Event.printed? : Event → Option String
  | .text s => some s
  | _ => none

namespace Course

/-- Some events in front. -/
def after (es : List Event) (c : Course α) : Course α :=
  { c with events := es ++ c.events }

/-- The texts that were printed. -/
def printed (c : Course α) : List String :=
  c.events.filterMap Event.printed?

/-- The result with the texts that were printed. -/
def seen (c : Course α) : α × List String :=
  (c.result, c.printed)

end Course

/-- Hold a talk with a supply. -/
def course : Talk α → Supply → Course α
  | done a, w => ⟨a, [], w⟩
  | send r next, w => ((next w.reply).course w.replied).after [.request r]
  | note l next, w => (next.course w).after [.line l]
  | print s next, w => (next.course w).after [.text s]
  | pause wait next, w => (next.course w).after [.wait wait]
  | look next, w => (next (w.times 0)).course w.looked

/-- While the clock stands still, this is how a talk is held. -/
theorem course_hold (now : Moment) (t : Talk α) (replies : List Reply) :
    t.course ⟨fun _ => now, replies⟩ = ⟨(hold now t replies).result, (hold now t replies).events,
      ⟨fun _ => now, (hold now t replies).left⟩⟩ := by
  induction t generalizing replies with
  | done a => rfl
  | send r next ih =>
      cases replies with
      | nil => exact congrArg (Course.after [.request r]) (ih (.error exhaustedText) [])
      | cons reply rest => exact congrArg (Course.after [.request r]) (ih reply rest)
  | note l next ih => exact congrArg (Course.after [.line l]) (ih replies)
  | print s next ih => exact congrArg (Course.after [.text s]) (ih replies)
  | pause wait next ih => exact congrArg (Course.after [.wait wait]) (ih replies)
  | look next ih => exact ih now replies

/-- A talk goes on with what is left of the supply. -/
theorem course_bind (t : Talk α) (f : α → Talk β) (w : Supply) :
    (t >>= f).course w =
      ((f (t.course w).result).course (t.course w).left).after (t.course w).events := by
  change (t.bind f).course w = _
  induction t generalizing w with
  | done a => rfl
  | send r next ih => exact congrArg (Course.after [.request r]) (ih w.reply w.replied)
  | note l next ih => exact congrArg (Course.after [.line l]) (ih w)
  | print s next ih => exact congrArg (Course.after [.text s]) (ih w)
  | pause wait next ih => exact congrArg (Course.after [.wait wait]) (ih w)
  | look next ih => exact ih (w.times 0) w.looked

theorem seen_bind (t : Talk α) (f : α → Talk β) (w : Supply) :
    ((t >>= f).course w).seen =
      (((f (t.course w).result).course (t.course w).left).result,
        (t.course w).printed ++ ((f (t.course w).result).course (t.course w).left).printed) := by
  rw [course_bind, Course.seen, Course.printed, Course.after, List.filterMap_append]
  rfl

/-! ### Quiet talks -/

/-- A talk does not look at the clock and prints nothing. -/
def Quiet : Talk α → Prop
  | done _ => True
  | send _ next => ∀ reply, (next reply).Quiet
  | note _ next => next.Quiet
  | print _ _ => False
  | pause _ next => next.Quiet
  | look _ => False

theorem Quiet.bind {f : α → Talk β} (ht : t.Quiet) (hf : ∀ a, (f a).Quiet) : (t >>= f).Quiet := by
  change (t.bind f).Quiet
  induction t with
  | done a => exact hf a
  | send r next ih => exact fun reply => ih reply (ht reply)
  | note l next ih => exact ih ht
  | print s next ih => exact ht.elim
  | pause wait next ih => exact ih ht
  | look next ih => exact ht.elim

/-- Whatever is replied, nothing is printed, and no time is taken from the supply. -/
theorem Quiet.still (h : t.Quiet) (w : Supply) :
    (t.course w).printed = [] ∧ (t.course w).left.times = w.times := by
  induction t generalizing w with
  | done a => exact ⟨rfl, rfl⟩
  | send r next ih => exact ih w.reply (h w.reply) w.replied
  | note l next ih => exact ih h w
  | print s next ih => exact h.elim
  | pause wait next ih => exact ih h w
  | look next ih => exact h.elim

theorem Quiet.printed (h : t.Quiet) (w : Supply) : (t.course w).printed = [] :=
  (h.still w).1

theorem Quiet.times (h : t.Quiet) (w : Supply) : (t.course w).left.times = w.times :=
  (h.still w).2

/-- What is seen after a quiet talk is what is seen of the one with which it goes on. -/
theorem Quiet.seen_bind (h : t.Quiet) (f : α → Talk β) (w : Supply) :
    ((t >>= f).course w).seen =
      ((f (t.course w).result).course ⟨w.times, (t.course w).left.replies⟩).seen := by
  rw [Talk.seen_bind, h.printed, List.nil_append, ← h.times w]
  rfl

end TableAudit.Http.Talk

/-!
## Orderly exchanges

Reading a remote table prints nothing and never looks at the clock. It yields something only if
every reply on the way was a success whose body is an envelope with a code of zero.
-/

namespace TableAudit.Remote

open TableAudit.Http

variable {σ α β : Type}

/-- A reply is a success that carries an envelope with a code of zero. -/
def IsOpened (reply : Reply) : Prop :=
  ∃ response v, reply = .ok response ∧ response.isSuccess = true ∧
    Json.readBytes? response.body = some v ∧ v.isMap = true ∧ (v.get "code").eqv (.int 0) = true

theorem isOpened_of_ok {r : Request} {reply : Reply} {data : Value}
    (h : (openReply r reply >>= openEnvelope r) = .ok data) : IsOpened reply := by
  cases reply with
  | error message => cases h
  | ok response =>
      rw [openReply] at h
      split at h
      next hsuccess =>
        cases hbody : Json.readBytes? response.body with
        | none =>
            rw [hbody] at h
            cases h
        | some v =>
            rw [hbody] at h
            change openEnvelope r v = .ok data at h
            rw [openEnvelope] at h
            split at h
            next hmap =>
              split at h
              next hcode => exact ⟨response, v, rfl, hsuccess, hbody, hmap, hcode⟩
              next => cases h
            next => cases h
      next => cases h

/-- Some replies are taken from the front, all of which are opened. -/
def Takes (replies rest : List Reply) : Prop :=
  ∃ taken, replies = taken ++ rest ∧ ∀ reply ∈ taken, IsOpened reply

theorem Takes.refl (replies : List Reply) : Takes replies replies :=
  ⟨[], rfl, nofun⟩

theorem Takes.trans {replies more rest : List Reply} (h : Takes replies more)
    (h' : Takes more rest) : Takes replies rest := by
  obtain ⟨taken, rfl, hopened⟩ := h
  obtain ⟨taken', rfl, hopened'⟩ := h'
  exact ⟨taken ++ taken', (List.append_assoc ..).symm,
    List.forall_mem_append.mpr ⟨hopened, hopened'⟩⟩

namespace Exchange

/-- Whatever is remembered, an exchange does not look at the clock and prints nothing, and it
yields something only with replies that are opened. -/
structure Orderly (x : Exchange σ α) : Prop where
  quiet : ∀ m, (x.run.run m).Quiet
  takes : ∀ m w a, ((x.run.run m).course w).result.1 = .ok a →
    Takes w.replies ((x.run.run m).course w).left.replies

theorem orderly_pure (a : α) : Orderly (pure a : Exchange σ α) :=
  ⟨fun _ => trivial, fun _ _ _ _ => .refl _⟩

theorem orderly_throw (e : SourceError) : Orderly (throw e : Exchange σ α) :=
  ⟨fun _ => trivial, fun _ _ _ _ => .refl _⟩

theorem orderly_log (l : Log.Line) : Orderly (log l : Exchange σ Unit) :=
  ⟨fun _ => trivial, fun _ _ _ _ => .refl _⟩

theorem orderly_get : Orderly (get : Exchange σ σ) :=
  ⟨fun _ => trivial, fun _ _ _ _ => .refl _⟩

theorem orderly_set (m : σ) : Orderly (set m : Exchange σ PUnit) :=
  ⟨fun _ => trivial, fun _ _ _ _ => .refl _⟩

theorem orderly_liftExcept (x : Except SourceError α) :
    Orderly (exchange.liftExcept x : Exchange σ α) := by
  cases x with
  | ok a => exact orderly_pure a
  | error e => exact orderly_throw e

theorem Orderly.bind {x : Exchange σ α} {f : α → Exchange σ β} (hx : x.Orderly)
    (hf : ∀ a, (f a).Orderly) : (x >>= f).Orderly := by
  have hrun (m : σ) :
      (x >>= f).run.run m = (x.run.run m) >>= fun p => ExceptT.bindCont f p.1 p.2 := rfl
  constructor
  · intro m
    refine Talk.Quiet.bind (hx.quiet m) fun p => ?_
    obtain ⟨result, m'⟩ := p
    cases result with
    | ok a => exact (hf a).quiet m'
    | error e => trivial
  · intro m w b hb
    have htakes := hx.takes m w
    rw [hrun, Talk.course_bind] at hb ⊢
    generalize (x.run.run m).course w = c at htakes hb ⊢
    obtain ⟨⟨result, m'⟩, events, left⟩ := c
    cases result with
    | ok a => exact (htakes a rfl).trans ((hf a).takes m' left b hb)
    | error e => cases hb

theorem course_liftExcept (x : Except SourceError α) (m : σ) (w : Talk.Supply) :
    ((exchange.liftExcept x : Exchange σ α).run.run m).course w = ⟨(x, m), [], w⟩ := by
  cases x <;> rfl

/-- A request takes a reply, which is opened. -/
theorem orderly_exchange (r : Request) : Orderly (exchange r : Exchange σ Value) := by
  refine (orderly_liftExcept _).bind fun r' => ⟨fun m reply => ?_, fun m w data hdata => ?_⟩
  · exact (orderly_liftExcept _).quiet m
  · let opened : Exchange σ Value :=
      exchange.liftExcept (openReply r' w.reply >>= openEnvelope r')
    change ((opened.run.run m).course w.replied).result.1 = .ok data at hdata
    change Takes w.replies ((opened.run.run m).course w.replied).left.replies
    rw [course_liftExcept] at hdata ⊢
    obtain ⟨times, replies⟩ := w
    cases replies with
    | nil => cases hdata
    | cons reply rest =>
        exact ⟨[reply], rfl, List.forall_mem_singleton.mpr (isOpened_of_ok hdata)⟩

end Exchange

open Exchange

variable {l : Location} {pages : Nat}

theorem orderly_lift (x : Except SourceError α) : Orderly (lift x) := by
  cases x with
  | ok a => exact orderly_pure a
  | error e => exact orderly_throw e

theorem orderly_pagesFrom (request : Value → Request)
    (read : List Value → Except SourceError (List α)) (stalled : String) (bound : Nat) (token : Value) (found : List α) :
    Orderly (pagesFrom request read stalled bound token found) := by
  induction bound generalizing token found with
  | zero => exact orderly_throw _
  | succ bound ih =>
      rw [pagesFrom]
      refine (orderly_exchange _).bind fun data => (orderly_lift _).bind fun items =>
        (orderly_lift _).bind fun more => ?_
      dsimp only
      split
      · split
        · exact orderly_throw _
        · exact ih _ _
      · exact orderly_pure _

theorem orderly_fields : Orderly (fields l pages) :=
  (orderly_pagesFrom _ _ _ _ _ _).bind fun _ =>
    (orderly_set _).bind fun _ => (orderly_log _).bind fun _ => orderly_pure _

theorem orderly_names : Orderly (names l pages) := by
  refine orderly_get.bind fun m => ?_
  cases m with
  | none => exact orderly_fields.bind fun _ => orderly_pure _
  | some columns => exact orderly_pure _

theorem orderly_records (size : Number) (token : Value) : Orderly (records l pages size token) :=
  (orderly_exchange _).bind fun _ => orderly_names.bind fun _ =>
    (orderly_lift _).bind fun _ => (orderly_lift _).bind fun _ => orderly_pure _

theorem orderly_nameOf (columnId : String) : Orderly (nameOf l pages columnId) := by
  refine orderly_names.bind fun known => ?_
  split
  · exact orderly_pure _
  · exact orderly_throw _

theorem orderly_answer (c : TableCall) : Orderly (answer l pages c) := by
  cases c with
  | fields => exact orderly_fields.bind fun _ => orderly_pure _
  | records size token => exact (orderly_records size token).bind fun _ => orderly_pure _
  | view id => exact orderly_pure _
  | visibleIds view => exact (orderly_pagesFrom _ _ _ _ _ _).bind fun _ => orderly_pure _
  | cell columnId recordId =>
      refine Orderly.bind ?_ fun _ => orderly_pure _
      exact (orderly_nameOf columnId).bind fun _ => (orderly_exchange _).bind fun _ =>
        (orderly_lift _).bind fun _ => (orderly_lift _).bind fun _ => orderly_lift _
  | setCell columnId recordId value =>
      refine Orderly.bind ?_ fun _ => orderly_pure _
      exact (orderly_nameOf columnId).bind fun _ =>
        (orderly_exchange _).bind fun _ => orderly_pure _

theorem orderly_readFrom (q : RowQuery) (bound : Nat) (r : Reading) :
    Orderly (readFrom l pages q bound r) := by
  induction bound generalizing r with
  | zero => exact orderly_throw _
  | succ bound ih =>
      rw [readFrom]
      refine (orderly_answer _).bind fun reply => Orderly.bind ?_ fun _ => ?_
      · cases r.line? reply with
        | none => exact orderly_pure _
        | some line => exact orderly_log line
      · split
        · exact orderly_pure _
        · exact orderly_throw _
        · exact ih _

theorem orderly_readRows (q : RowQuery) : Orderly (readRows l pages q) :=
  orderly_readFrom q _ _

end TableAudit.Remote

/-!
## Delivered notices

A notice is delivered if one of the replies to its attempts is a success. Delivering is quiet.
-/

namespace TableAudit.Notice

open TableAudit.Http TableAudit.Http.Talk

variable {p : RetryPolicy} {request : Request} {url : String} {notice : Value} {w : Supply}

/-- One of the first replies is a success. -/
def Succeeds (count : Nat) (replies : List Reply) : Prop :=
  ∃ response : Response, .ok response ∈ replies.take count ∧ response.isSuccess = true

theorem failureOf_eq_none {reply : Reply} :
    failureOf url reply = none ↔ ∃ response, reply = .ok response ∧ response.isSuccess = true := by
  cases reply with
  | error message => simp [failureOf]
  | ok response => simp [failureOf]

theorem succeeds_cons {count : Nat} {reply : Reply} {rest : List Reply} :
    Succeeds (count + 1) (reply :: rest) ↔
      (∃ response, reply = .ok response ∧ response.isSuccess = true) ∨ Succeeds count rest := by
  simp only [Succeeds, List.take_succ_cons, List.mem_cons]
  constructor
  · rintro ⟨response, rfl | hmem, hs⟩
    · exact .inl ⟨response, rfl, hs⟩
    · exact .inr ⟨response, hmem, hs⟩
  · rintro (⟨response, rfl, hs⟩ | ⟨response, hmem, hs⟩)
    · exact ⟨response, .inl rfl, hs⟩
    · exact ⟨response, .inr hmem, hs⟩

theorem not_succeeds_nil {count : Nat} : ¬ Succeeds count [] := by
  rintro ⟨response, hmem, -⟩
  rw [List.take_nil] at hmem
  cases hmem

theorem quiet_attempts (left : Nat) (r : Retry) : (attempts p request left r).Quiet := by
  induction left generalizing r with
  | zero =>
      rw [attempts]
      intro reply
      dsimp only
      cases failureOf request.url reply with
      | none => exact True.intro
      | some e => cases r.afterFailure p <;> exact True.intro
  | succ left ih =>
      rw [attempts]
      intro reply
      dsimp only
      cases failureOf request.url reply with
      | none => exact True.intro
      | some e =>
          cases r.afterFailure p with
          | giveUp => exact True.intro
          | again wait next => exact ih next

theorem succeeds_succ (url : String) {count : Nat} :
    Succeeds (count + 1) w.replies ↔
      failureOf url w.reply = none ∨ Succeeds count w.replied.replies := by
  rw [failureOf_eq_none, Supply.reply, Supply.replied]
  cases w.replies with
  | nil => simp [not_succeeds_nil]
  | cons reply rest => exact succeeds_cons

/-- The attempts come to a success just if one of their replies is one. -/
theorem attempts_succeed_iff (request : Request) (left : Nat) (r : Retry)
    (hleft : r.attempt + left = p.attempts) :
    ((attempts p request left r).course w).result = none ↔ Succeeds (left + 1) w.replies := by
  rw [succeeds_succ request.url]
  induction left generalizing r w with
  | zero =>
      have hlast : r.afterFailure p = .giveUp := if_pos (by simpa using hleft)
      have hnone : ¬ Succeeds 0 w.replied.replies := by simp [Succeeds]
      rw [attempts]
      simp only [course, Course.after, hlast]
      cases failureOf request.url w.reply with
      | none => exact iff_of_true rfl (.inl rfl)
      | some e => exact iff_of_false nofun (by simp [hnone])
  | succ left ih =>
      have hmore :
          r.afterFailure p = .again (r.delay.min p.maxDelay) ⟨r.attempt + 1, r.delay.double⟩ :=
        if_neg (by push_cast at hleft; omega)
      rw [attempts]
      simp only [course, Course.after, hmore]
      cases failureOf request.url w.reply with
      | none => exact iff_of_true rfl (.inl rfl)
      | some e =>
          simp only [reduceCtorEq, false_or]
          rw [succeeds_succ request.url]
          exact ih ⟨r.attempt + 1, r.delay.double⟩ (by push_cast at hleft; simp only; omega)

/-- A notice for which there are attempts is delivered just if one of them is answered with a
success. -/
theorem deliver_cases (p : RetryPolicy) (url : String) (notice : Value) (w : Supply) :
    let c := (deliver p url notice).course w
    c.result = .ok () ∧ Succeeds p.attempts.toNat w.replies ∨
      (∃ e, c.result = .error (.undelivered e)) ∧ ¬ Succeeds p.attempts.toNat w.replies ∨
      c.result = .error .noAttempt ∨ ∃ f, c.result = .error (.fault f) := by
  dsimp only
  rw [deliver]
  cases hbegin : Retry.begin? p with
  | none => exact .inr (.inr (.inl rfl))
  | some r =>
      cases Json.document notice with
      | error f => exact .inr (.inr (.inr ⟨f, rfl⟩))
      | ok body =>
          obtain ⟨hallowed, rfl⟩ : ¬ p.attempts < 1 ∧ r = ⟨1, p.baseDelay⟩ := by
            simpa [Retry.begin?, eq_comm] using hbegin
          have hiff := attempts_succeed_iff (p := p) (w := w) ⟨"POST", url, none, none, some body⟩
            (p.attempts.toNat - 1) ⟨1, p.baseDelay⟩ (by dsimp only; omega)
          rw [show p.attempts.toNat - 1 + 1 = p.attempts.toNat by omega] at hiff
          rw [← hiff, course_bind]
          cases ((attempts p ⟨"POST", url, none, none, some body⟩ (p.attempts.toNat - 1)
            ⟨1, p.baseDelay⟩).course w).result with
          | none => exact .inl ⟨rfl, rfl⟩
          | some e => exact .inr (.inl ⟨⟨e, rfl⟩, nofun⟩)

theorem quiet_deliver : (deliver p url notice).Quiet := by
  rw [deliver]
  cases Retry.begin? p with
  | none => exact True.intro
  | some r =>
      cases Json.document notice with
      | error f => exact True.intro
      | ok body =>
          refine (quiet_attempts _ r).bind fun e => ?_
          cases e with
          | none => exact True.intro
          | some e => exact True.intro

end TableAudit.Notice
