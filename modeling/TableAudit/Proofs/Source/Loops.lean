import TableAudit.Proofs.Fault
import TableAudit.Proofs.Table.Tokens
import TableAudit.Source.Basic

/-!
# Sound results

A source answers a question soundly with a value of the declared type or with a failure that has a
message. Whoever asks is prepared for both, and for nothing else.
-/

namespace TableAudit

variable {α β : Type} {x : Except SourceError α} {e : SourceError}

/-- The result is a value, or a failure with a message. -/
def IsSound (x : Except SourceError α) : Prop :=
  (∃ a, x = .ok a) ∨ ∃ message, x = .error (.failure message)

theorem isSound_ok (a : α) : IsSound (.ok a) :=
  Or.inl ⟨a, rfl⟩

theorem isSound_failure (message : String) : IsSound (.error (.failure message) : Except _ α) :=
  Or.inr ⟨message, rfl⟩

theorem isSound_error_iff :
    IsSound (.error e : Except SourceError α) ↔ ∃ message, e = .failure message := by
  simp [IsSound]

theorem not_isSound_fault (f : Fault) : ¬ IsSound (.error (.fault f) : Except SourceError α) := by
  simp [isSound_error_iff]

theorem not_isSound_unfinished : ¬ IsSound (.error .unfinished : Except SourceError α) := by
  simp [isSound_error_iff]

/-- An error is as sound whatever the result was to be. -/
theorem isSound_error_congr (e : SourceError) :
    IsSound (.error e : Except SourceError α) ↔ IsSound (.error e : Except SourceError β) := by
  rw [isSound_error_iff, isSound_error_iff]

theorem isSound_map_iff {f : α → β} : IsSound (x.map f) ↔ IsSound x := by
  cases x with
  | ok a => exact ⟨fun _ => isSound_ok a, fun _ => isSound_ok (f a)⟩
  | error e => exact isSound_error_congr e

/-- Two operations in turn are sound if the first is, and the second where it is come to. -/
theorem isSound_bind_iff {f : α → Except SourceError β} :
    IsSound (x >>= f) ↔ IsSound x ∧ ∀ a, x = .ok a → IsSound (f a) := by
  cases x with
  | ok a => simp [ok_bind, isSound_ok]
  | error e =>
      have h : IsSound (Except.error e >>= f) ↔ IsSound (.error e : Except SourceError α) :=
        isSound_error_congr e
      simp [h]

/-! ### Values of a kind -/

/-- The result is a value of a kind, or a failure with a message. -/
def Yields (P : α → Prop) (x : Except SourceError α) : Prop :=
  (∃ a, x = .ok a ∧ P a) ∨ ∃ message, x = .error (.failure message)

theorem yields_iff {P : α → Prop} : Yields P x ↔ IsSound x ∧ ∀ a, x = .ok a → P a := by
  cases x with
  | ok a => simp [Yields, IsSound]
  | error e => simp [Yields, IsSound]

theorem yields_true : Yields (fun _ => True) x ↔ IsSound x := by
  simp [Yields, IsSound]

theorem yields_map_iff {P : β → Prop} {g : α → β} :
    Yields P (x.map g) ↔ Yields (fun a => P (g a)) x := by
  cases x <;> simp [Yields, Except.map]

theorem yields_ok_iff {P : α → Prop} {a : α} : Yields P (.ok a) ↔ P a := by
  simp [Yields]

theorem yields_error_iff {P : α → Prop} :
    Yields P (.error e) ↔ IsSound (.error e : Except SourceError α) := by
  simp [Yields, IsSound]

/-- A result that is never a failure with a message has to be a value. -/
theorem yields_iff_exists {P : α → Prop} (h : ∀ message, x ≠ .error (.failure message)) :
    Yields P x ↔ ∃ a, x = .ok a ∧ P a :=
  or_iff_left fun ⟨message, hx⟩ => h message hx

/-! ### Declared types -/

namespace Value

/-- A mapping all of whose keys are texts. -/
def IsObject (v : Value) : Prop :=
  ∃ entries, v = .map entries ∧ ∀ e ∈ entries, ∃ s, e.1 = .text s

/-- A value that stands for an empty mapping where it is nothing is a mapping from texts if it is
one otherwise. -/
theorem isObject_orEmpty {v : Value} : (if v.isTruthy then v else .map []).IsObject ↔
    (v.isTruthy = true → v.IsObject) := by
  split
  · rename_i h
    exact ⟨fun ho _ => ho, fun ho => ho h⟩
  · rename_i h
    exact ⟨fun _ ht => absurd ht h, fun _ => ⟨[], rfl, List.forall_mem_nil _⟩⟩

/-- A text or nothing. -/
def IsOptionalText (v : Value) : Prop :=
  v = .null ∨ ∃ s, v = .text s

end Value

/-- The properties of a column are declared as a mapping from texts. -/
def Column.IsTyped (c : Column) : Prop :=
  c.properties.IsObject

/-- The cells of a record are declared as a mapping from texts, the time of a change as an
integer. -/
structure Record.IsTyped (r : Record) : Prop where
  fields : ∀ e ∈ r.fields, ∃ s, e.1 = .text s
  time : ∀ n, r.lastModifiedTime = some n → ∃ k, n = .int k

/-- The identifiers in a selection are declared as texts that may be missing. -/
structure Selection.IsTyped (s : Selection) : Prop where
  table : s.tableId.IsOptionalText
  view : s.viewId.IsOptionalText

/-- Whether a reply is a value of the type that is declared for a question. -/
def TableCall.Admits : TableCall → TableReply → Prop
  | .fields, .fields columns => ∀ c ∈ columns, c.IsTyped
  | .records _ _, .page p => (∀ r ∈ p.records, r.IsTyped) ∧ p.token.IsOptionalText
  | .view _, .view _ => True
  | .visibleIds _, .visibleIds _ => True
  | .cell _ _, .cell _ => True
  | .setCell _ _ _, .stored _ => True
  | _, _ => False

/-- A reply as a result, which is an error if the question failed. -/
def TableReply.result : TableReply → Except SourceError TableReply
  | .failed e => .error e
  | r => .ok r

/-! ### Keys of mappings -/

namespace Value

variable {k v : Value} {s : String} {entries : List (Value × Value)}

/-- Only the same text equals a text. -/
theorem eq_of_text_eqv (h : (text s).eqv k = true) : k = .text s := by
  cases k <;> simp_all [eqv]

theorem keys_insert : (∀ e ∈ insert entries k v, ∃ s, e.1 = text s) ↔
    (∀ e ∈ entries, ∃ s, e.1 = text s) ∧ ∃ s, k = text s := by
  induction entries with
  | nil => simp [insert]
  | cons e entries ih =>
      obtain ⟨k', v'⟩ := e
      rw [insert]
      split
      · rename_i heqv
        simp only [List.forall_mem_cons]
        constructor
        · rintro ⟨⟨s, rfl⟩, hrest⟩
          exact ⟨⟨⟨s, rfl⟩, hrest⟩, s, eq_of_text_eqv heqv⟩
        · rintro ⟨h, -⟩
          exact h
      · simp only [List.forall_mem_cons, ih, and_assoc]

/-- The keys of a mapping are texts just if those of the pairs are from which it arises. -/
theorem keys_ofPairs : (∀ e ∈ ofPairs entries, ∃ s, e.1 = text s) ↔
    ∀ e ∈ entries, ∃ s, e.1 = text s := by
  suffices ∀ known, (∀ e ∈ entries.foldl (fun es p => insert es p.1 p.2) known,
      ∃ s, e.1 = text s) ↔
      (∀ e ∈ known, ∃ s, e.1 = text s) ∧ ∀ e ∈ entries, ∃ s, e.1 = text s by
    simpa [ofPairs] using this []
  induction entries with
  | nil => simp
  | cons e entries ih =>
      intro known
      rw [List.foldl_cons, ih, keys_insert, List.forall_mem_cons, and_assoc]

end Value

end TableAudit

/-!
## Loops over pages

A loop asks for the page of a token, and the page says by which token to go on, if by any. The loop
ends just if no token is asked for twice.
-/

namespace TableAudit

open Tokens (asked last?)

variable {α ρ : Type} {turn : Value → Except SourceError (Option Value)} {tokens : List Value}
variable {result : Nat → Option (Except SourceError α)} {asks : Nat → List ρ} {request : Value → ρ}
variable {bound : Nat}

/-- The token to go on by. A loop does not go on after an error. -/
def nextOf (turn : Value → Except SourceError (Option Value)) (token : Value) : Option Value :=
  match turn token with
  | .ok next => next
  | .error _ => none

theorem nextOf_eq_some {t t' : Value} : nextOf turn t = some t' ↔ turn t = .ok (some t') := by
  rw [nextOf]
  cases turn t <;> simp

/-- With a bound on the pages, a loop asks for the pages of the tokens that it is led to. It has a
result once a page leads nowhere, which is sound just if that page is. -/
structure Follows (turn : Value → Except SourceError (Option Value)) (request : Value → ρ)
    (asks : Nat → List ρ) (result : Nat → Option (Except SourceError α)) : Prop where
  asks : ∀ bound, asks bound = (asked (nextOf turn) bound .null).map request
  goesOn : ∀ bound, last? (nextOf turn) bound .null = none → result bound = none
  stops : ∀ bound t, last? (nextOf turn) bound .null = some t →
    ∃ r, result bound = some r ∧ (IsSound r ↔ IsSound (turn t))

/-- The rounds of a loop, which keeps something from one to the next: a round asks for the page of a
token, and then it is up to the page whether there is another round. -/
structure Rounds {σ : Type} (turn : Value → Except SourceError (Option Value)) (request : Value → ρ)
    (asks : Nat → σ → Value → List ρ)
    (result : Nat → σ → Value → Option (Except SourceError α)) : Prop where
  spent : ∀ s t, asks 0 s t = [] ∧ result 0 s t = none
  another : ∀ s t t', nextOf turn t = some t' → ∃ s', ∀ bound,
    asks (bound + 1) s t = request t :: asks bound s' t' ∧
      result (bound + 1) s t = result bound s' t'
  last : ∀ s t, nextOf turn t = none → ∃ r, (IsSound r ↔ IsSound (turn t)) ∧ ∀ bound,
    asks (bound + 1) s t = [request t] ∧ result (bound + 1) s t = some r

section Rounds

variable {σ : Type} {asks : Nat → σ → Value → List ρ}
variable {result : Nat → σ → Value → Option (Except SourceError α)}

theorem Rounds.asks_eq (h : Rounds turn request asks result) (bound : Nat) (s : σ) (t : Value) :
    asks bound s t = (asked (nextOf turn) bound t).map request := by
  induction bound generalizing s t with
  | zero => exact (h.spent s t).1
  | succ bound ih =>
      cases hnext : nextOf turn t with
      | none =>
          obtain ⟨r, -, hround⟩ := h.last s t hnext
          rw [(hround bound).1, Tokens.asked_none hnext, List.map_singleton]
      | some t' =>
          obtain ⟨s', hround⟩ := h.another s t t' hnext
          rw [(hround bound).1, Tokens.asked_some hnext, List.map_cons, ih s' t']

theorem Rounds.result_none (h : Rounds turn request asks result) (bound : Nat) (s : σ) (t : Value)
    (hlast : last? (nextOf turn) bound t = none) : result bound s t = none := by
  induction bound generalizing s t with
  | zero => exact (h.spent s t).2
  | succ bound ih =>
      cases hnext : nextOf turn t with
      | none =>
          rw [Tokens.last?_none hnext] at hlast
          cases hlast
      | some t' =>
          rw [Tokens.last?_some hnext] at hlast
          obtain ⟨s', hround⟩ := h.another s t t' hnext
          rw [(hround bound).2, ih s' t' hlast]

theorem Rounds.result_some (h : Rounds turn request asks result) (bound : Nat) (s : σ) (t : Value)
    {t' : Value} (hlast : last? (nextOf turn) bound t = some t') :
    ∃ r, result bound s t = some r ∧ (IsSound r ↔ IsSound (turn t')) := by
  induction bound generalizing s t with
  | zero => cases hlast
  | succ bound ih =>
      cases hnext : nextOf turn t with
      | none =>
          rw [Tokens.last?_none hnext] at hlast
          obtain rfl := Option.some.inj hlast
          obtain ⟨r, hsound, hround⟩ := h.last s t hnext
          exact ⟨r, (hround bound).2, hsound⟩
      | some _ =>
          rw [Tokens.last?_some hnext] at hlast
          obtain ⟨s', hround⟩ := h.another s t _ hnext
          rw [(hround bound).2]
          exact ih s' _ hlast

/-- Round by round, a loop goes from token to token. -/
theorem Rounds.follows (h : Rounds turn request asks result) (s : σ) :
    Follows turn request (fun bound => asks bound s .null) fun bound => result bound s .null where
  asks bound := h.asks_eq bound s .null
  goesOn bound := h.result_none bound s .null
  stops bound _ := h.result_some bound s .null

end Rounds

/-- A loop ends just if no token is asked for twice. Then it takes at most one request more than
there are tokens, and the result is sound if the page is at which it ends. -/
structure EndsJust (tokens : List Value) (turn : Value → Except SourceError (Option Value))
    (asks : Nat → List ρ) (result : Nat → Option (Except SourceError α)) : Prop where
  ends : (∃ bound r, result bound = some r) ↔ ∀ bound, (asked (nextOf turn) bound .null).Nodup
  sound : (∃ bound r, result bound = some r ∧ IsSound r) ↔
    (∀ bound, (asked (nextOf turn) bound .null).Nodup) ∧
      ∀ bound t, last? (nextOf turn) bound .null = some t → IsSound (turn t)
  soon : (∀ bound, (asked (nextOf turn) bound .null).Nodup) →
    ∀ bound, (asks bound).length ≤ tokens.length + 1 ∧
      (tokens.length < bound → ∃ r, result bound = some r)

theorem Follows.exists_last (h : Follows turn request asks result) {r : Except SourceError α}
    (hr : result bound = some r) :
    ∃ t, last? (nextOf turn) bound .null = some t ∧ (IsSound r ↔ IsSound (turn t)) := by
  cases ht : last? (nextOf turn) bound .null with
  | none =>
      rw [h.goesOn bound ht] at hr
      cases hr
  | some t =>
      obtain ⟨r', hr', hsound⟩ := h.stops bound t ht
      rw [hr] at hr'
      obtain rfl := Option.some.inj hr'
      exact ⟨t, rfl, hsound⟩

/-- While pages lead on, a loop has no result, and every page is another request. -/
theorem Follows.endless (h : Follows turn request asks result)
    (hlast : ∀ bound, last? (nextOf turn) bound .null = none) (bound : Nat) :
    (asks bound).length = bound ∧ result bound = none := by
  constructor
  · rw [h.asks, List.length_map, Tokens.length_asked (hlast bound)]
  · exact h.goesOn bound (hlast bound)

/-- A loop that follows tokens of which there are finitely many ends just if none is asked for
twice. -/
theorem Follows.endsJust (h : Follows turn request asks result)
    (hT : ∀ t t', turn t = .ok (some t') → t' ∈ tokens) : EndsJust tokens turn asks result := by
  have hnext : ∀ t t', nextOf turn t = some t' → t' ∈ tokens := fun t t' ht =>
    hT t t' (nextOf_eq_some.mp ht)
  have hends := Tokens.ends_iff hnext .null
  refine ⟨?_, ?_, ?_⟩
  · rw [← hends]
    constructor
    · rintro ⟨bound, r, hr⟩
      obtain ⟨t, ht, -⟩ := h.exists_last hr
      exact ⟨bound, t, ht⟩
    · rintro ⟨bound, t, ht⟩
      obtain ⟨r, hr, -⟩ := h.stops bound t ht
      exact ⟨bound, r, hr⟩
  · rw [← hends]
    constructor
    · rintro ⟨bound, r, hr, hsound⟩
      obtain ⟨t, ht, hiff⟩ := h.exists_last hr
      refine ⟨⟨bound, t, ht⟩, fun k s hs => ?_⟩
      rw [Tokens.last?_unique hs ht]
      exact hiff.mp hsound
    · rintro ⟨⟨bound, t, ht⟩, hsound⟩
      obtain ⟨r, hr, hiff⟩ := h.stops bound t ht
      exact ⟨bound, r, hr, hiff.mpr (hsound bound t ht)⟩
  · intro hnodup bound
    constructor
    · rw [h.asks, List.length_map]
      exact Tokens.length_asked_of_nodup hnext (hnodup bound)
    · intro hbound
      obtain ⟨t, ht⟩ := Tokens.last?_within hnext hnodup hbound
      obtain ⟨r, hr, -⟩ := h.stops bound t ht
      exact ⟨r, hr⟩

end TableAudit
