import TableAudit.Proofs.Remote.Soundness

/-!
# Servers that change

A server may be another one after a request. An exchange that only reads is answered as by a service
that stays the same, if reading changes nothing.
-/

namespace TableAudit

namespace Http

variable {S α β : Type} {now : Calendar.Moment}

/-- A server answers a request, and may be another one afterwards. -/
abbrev Server (S : Type) := S → Request → Reply × S

/-- What a server would reply to requests as it is. -/
def Server.replies (serve : Server S) (s : S) (r : Request) : Reply :=
  (serve s r).1

/-- The server after a request. -/
def Server.after (serve : Server S) (s : S) (r : Request) : S :=
  (serve s r).2

namespace Talk

variable {serve : Server S} {s : S}

/-- What a talk with a server comes to, and what becomes of the server. -/
def served (serve : Server S) (now : Calendar.Moment) : Talk α → S → α × S
  | done a, s => (a, s)
  | send r next, s => (next (serve s r).1).served serve now (serve s r).2
  | note _ next, s => next.served serve now s
  | print _ next, s => next.served serve now s
  | pause _ next, s => next.served serve now s
  | look next, s => (next now).served serve now s

theorem served_bind (t : Talk α) (f : α → Talk β) (s : S) :
    (t >>= f).served serve now s =
      (f (t.served serve now s).1).served serve now (t.served serve now s).2 := by
  change (t.bind f).served serve now s = _
  induction t generalizing s with
  | done a => rfl
  | send r next ih => exact ih _ _
  | note l next ih => exact ih s
  | print text next ih => exact ih s
  | pause w next ih => exact ih s
  | look next ih => exact ih now s

/-- A talk whose requests change nothing is answered as by a service. -/
theorem served_of_still (t : Talk α)
    (h : ∀ r ∈ t.requests (serve.replies s) now, serve.after s r = s) :
    t.served serve now s = (t.answered (serve.replies s) now, s) := by
  induction t with
  | done a => rfl
  | send r next ih =>
      rw [requests, List.forall_mem_cons] at h
      rw [served, show (serve s r).2 = s from h.1]
      exact ih _ h.2
  | note l next ih => exact ih h
  | print text next ih => exact ih h
  | pause w next ih => exact ih h
  | look next ih => exact ih now h

end Talk

end Http

namespace Remote

open Http Exchange

variable {S σ α β : Type} {serve : Server S} {now : Calendar.Moment} {s : S}

namespace Exchange

/-- What an exchange with a server comes to, what is remembered then, and what becomes of the
server. -/
def effect (serve : Server S) (now : Calendar.Moment) (x : Exchange σ α) (m : σ) (s : S) :
    (Except SourceError α × σ) × S :=
  (x.run.run m).served serve now s

theorem effect_bind (x : Exchange σ α) (f : α → Exchange σ β) (m : σ) (s : S) :
    effect serve now (x >>= f) m s =
      match effect serve now x m s with
      | ((.ok a, m'), s') => effect serve now (f a) m' s'
      | ((.error e, m'), s') => ((.error e, m'), s') := by
  change Talk.served serve now ((x.run.run m) >>= fun p => _) s = _
  rw [Talk.served_bind, effect]
  obtain ⟨⟨result, m'⟩, s'⟩ := (x.run.run m).served serve now s
  cases result <;> rfl

/-- Whether an exchange puts no request with a body, whatever it is replied. -/
def OnlyReads (x : Exchange σ α) : Prop :=
  ∀ service now m, ∀ r ∈ asks service now x m, r.body = none

theorem OnlyReads.bind {x : Exchange σ α} {f : α → Exchange σ β} (hx : OnlyReads x)
    (hf : ∀ a, OnlyReads (f a)) : OnlyReads (x >>= f) := by
  intro service now m r hr
  rw [asks_bind, List.mem_append] at hr
  obtain hr | hr := hr
  · exact hx service now m r hr
  · split at hr
    next a m' _ => exact hf a service now m' r hr
    next => cases hr

theorem onlyReads_pure (a : α) : OnlyReads (pure a : Exchange σ α) := by
  intro service now m r hr
  cases hr

theorem onlyReads_fail (message : String) : OnlyReads (fail message : Exchange σ α) := by
  intro service now m r hr
  cases hr

theorem onlyReads_lift (x : Except SourceError α) : OnlyReads (lift x) := by
  intro service now m r hr
  rw [asks_lift] at hr
  cases hr

theorem onlyReads_exchange {r : Request} (h : r.body = none) :
    OnlyReads (exchange r : Exchange σ Value) := by
  intro service now m r' hr
  rw [asks_exchange h, List.mem_singleton] at hr
  rwa [hr]

/-- An exchange that only reads is answered as by a service, if reading changes nothing. -/
theorem OnlyReads.effect_eq {x : Exchange σ α} (hx : OnlyReads x)
    (hs : ∀ r : Request, r.body = none → serve.after s r = s) (m : σ) :
    effect serve now x m s = (outcome (serve.replies s) now x m, s) :=
  Talk.served_of_still _ fun r hr => hs r (hx _ now m r hr)

end Exchange

/-! ### Exchanges that only read -/

variable {request : Value → Request} {read : List Value → Except SourceError (List β)}

theorem onlyReads_pagesFrom (hbody : ∀ token, (request token).body = none) (stalled : String)
    (bound : Nat) (token : Value) (found : List β) :
    OnlyReads (pagesFrom request read stalled bound token found) := by
  intro service now m r hr
  induction bound generalizing token found with
  | zero => cases hr
  | succ bound ih =>
      rw [asks_round (hbody token), List.mem_cons] at hr
      obtain rfl | hr := hr
      · exact hbody token
      · cases hpage : pageAt service request read token with
        | error e =>
            rw [hpage] at hr
            cases hr
        | ok page =>
            simp only [hpage] at hr
            cases hnext : leadsTo page.1 token with
            | none =>
                rw [hnext] at hr
                cases hr
            | some next =>
                rw [hnext] at hr
                exact ih next _ hr

theorem onlyReads_fields (l : Location) (pages : Nat) : OnlyReads (fields l pages) := by
  intro service now m r hr
  rw [(fields_eq_pages l pages).1] at hr
  exact onlyReads_pagesFrom (fun _ => rfl) _ _ _ _ service now m r hr

theorem onlyReads_names (l : Location) (pages : Nat) : OnlyReads (names l pages) := by
  intro service now m r hr
  cases m with
  | some columns => cases hr
  | none =>
      have hnames : OnlyReads (fields l pages >>= fun columns => pure (namesOf columns)) :=
        (onlyReads_fields l pages).bind fun columns => onlyReads_pure _
      exact hnames service now none r hr

theorem onlyReads_nameOf (l : Location) (pages : Nat) (columnId : String) :
    OnlyReads (nameOf l pages columnId) := by
  refine (onlyReads_names l pages).bind fun known => ?_
  cases nameOf? known columnId with
  | some name => exact onlyReads_pure name
  | none => exact onlyReads_fail _

theorem onlyReads_cell (l : Location) (pages : Nat) (columnId recordId : String) :
    OnlyReads (cell l pages columnId recordId) := by
  refine (onlyReads_nameOf l pages columnId).bind fun name => ?_
  refine (onlyReads_exchange rfl).bind fun data => ?_
  refine (onlyReads_lift _).bind fun record => ?_
  exact (onlyReads_lift _).bind fun fields => onlyReads_lift _

end Remote

end TableAudit
