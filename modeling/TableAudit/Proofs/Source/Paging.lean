import TableAudit.Proofs.Remote.Loops
import TableAudit.Proofs.Source.Spelled
import TableAudit.Proofs.Table.Pages

/-!
# The ends of loops over pages

The columns and the visible records of a remote table and the records of any table are gone through
page by page. A loop compares the token that a page gives with the one at hand only. Tokens that
lead back to an earlier page by way of another one are followed forever.
-/

namespace TableAudit

open TableAudit.Http Remote

/-! ### Pages that lead to each other -/

namespace Steering

/-- A page without items, with the token of the page after it. -/
def page (next : Option String) : Value :=
  Part.spell spelling ⟨.null, [], next⟩

/-- The token of a request. -/
def tokenOf (r : Request) : Option String :=
  (r.parameters.getD []).lookup "page_token"

/-- A service of pages without items. -/
def service (next : Option String → Option String) (r : Request) : Reply :=
  written (envelope (page (next (tokenOf r))))

/-- The token as a text, if it is one. -/
def textOf : Value → Option String
  | .text s => some s
  | _ => none

/-- A table of pages without records. -/
def answer (next : Option String → Option String) : TableCall → TableReply
  | .records _ token =>
    let next := next (textOf token)
    .page ⟨[], next.isSome, .ofOption .text next⟩
  | _ => .failed (.fault .wrongKind)

def location : Location :=
  ⟨usualBaseUrl, "app1", "tbl1", none⟩

/-- Two pages, the first of which leads to the other one. -/
def straight (token : Option String) : Option String :=
  if token.isNone then some "A" else none

/-- Three pages, the last two of which lead to each other. -/
def swing (token : Option String) : Option String :=
  if token = some "A" then some "B" else some "A"

variable {α : Type} {request : Value → Request} {read : List Value → Except SourceError (List α)}
variable {next : Option String → Option String} {token t : Value} {s : String} {size : Number}
variable {names : List String}

theorem fits_page (next : Option String) : Json.fits (envelope (page next)) = true := by
  rw [fits_envelope, page, fits_part, List.all_nil]

theorem turn_service (hread : read [] = .ok []) (next : Option String → Option String)
    (token : Value) :
    turn (service next) request read token =
      .ok (leadsTo (page (next (tokenOf (request token)))) token) := by
  have hsends : SendsPage (service next) (fun r => envelope (page (next (tokenOf r))))
      (request token) ⟨.null, [], next (tokenOf (request token))⟩ :=
    sendsPage_written rfl rfl (by simp)
  have hopened : opened (service next) (request token) =
      .ok (page (next (tokenOf (request token)))) := by
    rw [opened_eq hsends.carried (envelope_isEnvelope rfl), if_pos (fits_page _)]
  have hitems (next : Option String) : itemsOf (page next) = .ok [] := itemsOf_page (part_spelled _)
  rw [turn, pageAt, hopened, ok_bind, hitems, ok_bind, hread]
  rfl

theorem leadsTo_page (s : String) (token : Value) :
    leadsTo (page (some s)) token =
      if !(Value.text s).isTruthy || (Value.text s).eqv token then none else some (.text s) :=
  rfl

theorem nextOf_service (hread : read [] = .ok []) (h : next (tokenOf (request token)) = some s)
    (hleads : (!(Value.text s).isTruthy || (Value.text s).eqv token) = false) :
    nextOf (turn (service next) request read) token = some (.text s) := by
  rw [nextOf_eq_some, turn_service hread, h, leadsTo_page, hleads]
  rfl

theorem nextOf_service_none (hread : read [] = .ok []) (h : next (tokenOf (request token)) = none) :
    nextOf (turn (service next) request read) token = none := by
  rw [nextOf, turn_service hread, h]
  rfl

/-- The service leads to no other tokens than those that are given. -/
theorem mem_of_turn (hread : read [] = .ok []) (hnames : ∀ token s, next token = some s → s ∈ names)
    (h : turn (service next) request read token = .ok (some t)) : t ∈ names.map Value.text := by
  rw [turn_service hread] at h
  have hleads := Except.ok.inj h
  cases hs : next (tokenOf (request token)) with
  | none =>
      rw [hs] at hleads
      cases hleads
  | some s =>
      rw [hs, leadsTo_page] at hleads
      split at hleads
      · cases hleads
      · rw [← Option.some.inj hleads]
        exact List.mem_map_of_mem (hnames _ s hs)

/-- The table leads to no other tokens than those that are given. -/
theorem mem_of_turn_answer (hnames : ∀ token s, next token = some s → s ∈ names)
    (h : Reading.turn (answer next) size token = .ok (some t)) : t ∈ names.map Value.text := by
  rw [Reading.turn, answer] at h
  cases hs : next (textOf token) with
  | none =>
      rw [hs] at h
      cases h
  | some s =>
      simp only [hs, Option.isSome_some, if_true, Value.ofOption] at h
      split at h
      · cases h
      · rw [← Option.some.inj (Except.ok.inj h)]
        exact List.mem_map_of_mem (hnames _ s hs)

theorem straight_names (token : Option String) (s : String) (h : straight token = some s) :
    s ∈ ["A"] := by
  rw [straight] at h
  split at h <;> simp_all

theorem swing_names (token : Option String) (s : String) (h : swing token = some s) :
    s ∈ ["A", "B"] := by
  rw [swing] at h
  split at h <;> simp_all

end Steering

open Steering

variable {service : Request → Reply} {l : Location} {viewId : String}
variable {answer : TableCall → TableReply} {size : Number} {tokens : List Value}

/-- A loop over pages with finitely many tokens ends just if no token is asked for twice. -/
theorem loops_end_just
    (hfields : ∀ t t', turn service (fieldsRequest l) columnsOf t = .ok (some t') → t' ∈ tokens)
    (hvisible : ∀ t t',
      turn service (visibleRequest l viewId) recordIdsOf t = .ok (some t') → t' ∈ tokens)
    (hrecords : ∀ t t', Reading.turn answer size t = .ok (some t') → t' ∈ tokens)
    (now : Calendar.Moment) (m : Memory) :
    EndsJust tokens (turn service (fieldsRequest l) columnsOf)
        (fun bound => Exchange.asks service now (fields l bound) m)
        (fun bound => finished (Exchange.outcome service now (fields l bound) m).1) ∧
      EndsJust tokens (turn service (visibleRequest l viewId) recordIdsOf)
        (fun bound => Exchange.asks service now (visibleIds l bound viewId) m)
        (fun bound => finished (Exchange.outcome service now (visibleIds l bound viewId) m).1) ∧
      EndsJust tokens (Reading.turn answer size)
        (fun bound => (Reading.fetch answer size bound .start).2)
        (fun bound => (Reading.fetch answer size bound .start).1) :=
  ⟨(fields_follows service now l m).endsJust hfields,
    (visibleIds_follows service now l viewId m).endsJust hvisible,
    (Reading.fetch_follows answer size).endsJust hrecords⟩

/-- With two pages, the first of which leads to the other, every loop ends. -/
theorem straight_pages_end :
    (∀ t t', turn (Steering.service straight) (fieldsRequest location) columnsOf t =
        .ok (some t') → t' ∈ ["A"].map Value.text) ∧
      (∀ t t', turn (Steering.service straight) (visibleRequest location "v") recordIdsOf t =
        .ok (some t') → t' ∈ ["A"].map Value.text) ∧
      (∀ t t', Reading.turn (Steering.answer straight) (.int 100) t = .ok (some t') →
        t' ∈ ["A"].map Value.text) ∧
      (∃ r, finished (Exchange.outcome (Steering.service straight) default
        (fields location 2) none).1 = some r) ∧
      (∃ r, finished (Exchange.outcome (Steering.service straight) default
        (visibleIds location 2 "v") none).1 = some r) ∧
      ∃ r, (Reading.fetch (Steering.answer straight) (.int 100) 2 .start).1 = some r := by
  have hfields : ∀ t t', turn (Steering.service straight) (fieldsRequest location) columnsOf t =
      .ok (some t') → t' ∈ ["A"].map Value.text := fun _ _ => mem_of_turn rfl straight_names
  have hvisible : ∀ t t', turn (Steering.service straight) (visibleRequest location "v")
      recordIdsOf t = .ok (some t') → t' ∈ ["A"].map Value.text :=
    fun _ _ => mem_of_turn rfl straight_names
  have hrecords : ∀ t t', Reading.turn (Steering.answer straight) (.int 100) t = .ok (some t') →
      t' ∈ ["A"].map Value.text := fun _ _ => mem_of_turn_answer straight_names
  have hnodup {next : Value → Option Value} (hnull : next .null = some (.text "A"))
      (ha : next (.text "A") = none) (bound : Nat) : (Tokens.asked next bound .null).Nodup :=
    Tokens.nodup_asked ((Tokens.last?_some hnull 1).trans (Tokens.last?_none ha 0)) bound
  obtain ⟨hf, hv, hr⟩ := loops_end_just hfields hvisible hrecords default none
  refine ⟨hfields, hvisible, hrecords, ?_, ?_, ?_⟩
  · refine (hf.soon (hnodup ?_ ?_) 2).2 (by decide)
    · exact nextOf_service rfl rfl rfl
    · exact nextOf_service_none rfl rfl
  · refine (hv.soon (hnodup ?_ ?_) 2).2 (by decide)
    · exact nextOf_service rfl rfl rfl
    · exact nextOf_service_none rfl rfl
  · exact (hr.soon (hnodup rfl rfl) 2).2 (by decide)

/-- Three pages, the last two of which lead to each other, are asked for forever. -/
theorem swinging_pages_never_end :
    (∀ t t', turn (Steering.service swing) (fieldsRequest location) columnsOf t =
        .ok (some t') → t' ∈ ["A", "B"].map Value.text) ∧
      (∀ t t', turn (Steering.service swing) (visibleRequest location "v") recordIdsOf t =
        .ok (some t') → t' ∈ ["A", "B"].map Value.text) ∧
      (∀ t t', Reading.turn (Steering.answer swing) (.int 100) t = .ok (some t') →
        t' ∈ ["A", "B"].map Value.text) ∧
      ∀ bound,
        ((Exchange.asks (Steering.service swing) default (fields location bound) none).length =
            bound ∧
          finished (Exchange.outcome (Steering.service swing) default (fields location bound)
            none).1 = none) ∧
        ((Exchange.asks (Steering.service swing) default (visibleIds location bound "v")
            none).length = bound ∧
          finished (Exchange.outcome (Steering.service swing) default (visibleIds location bound "v")
            none).1 = none) ∧
        (Reading.fetch (Steering.answer swing) (.int 100) bound .start).2.length = bound ∧
        (Reading.fetch (Steering.answer swing) (.int 100) bound .start).1 = none := by
  refine ⟨fun _ _ => mem_of_turn rfl swing_names, fun _ _ => mem_of_turn rfl swing_names,
    fun _ _ => mem_of_turn_answer swing_names, fun bound => ⟨?_, ?_, ?_⟩⟩
  · apply (fields_follows (Steering.service swing) default location none).endless
    exact Tokens.last?_of_swing (nextOf_service rfl rfl rfl) (nextOf_service rfl rfl rfl)
      (nextOf_service rfl rfl rfl)
  · apply (visibleIds_follows (Steering.service swing) default location "v" none).endless
    exact Tokens.last?_of_swing (nextOf_service rfl rfl rfl) (nextOf_service rfl rfl rfl)
      (nextOf_service rfl rfl rfl)
  · apply (Reading.fetch_follows (Steering.answer swing) (.int 100)).endless
    exact Tokens.last?_of_swing rfl rfl rfl

end TableAudit
