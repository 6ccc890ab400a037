import TableAudit.Proofs.Monitor.Origin
import TableAudit.Proofs.Monitor.Subscriptions

/-!
# Records that were added

A table tells of records that were added to it, and the monitor begins a task for them. The task
turns to the records when it has its first turn, in the table that is attached then, and keeps to
that table. So every cell that it reads or writes is a cell of one of the records that it was begun
for; but the table is the one that told of them only if the attached table is.
-/

namespace TableAudit

/-- A cell that is turned to: by which task, in which table and of which record, and whether it is
written. -/
structure Touch where
  task : Nat
  table : OpenTable
  record : String
  writes : Bool

namespace Effect

/-- The cell that is turned to, if the effect is a question about one. -/
def touch? : Effect → Option Touch
  | ask t (.table U (.cell _ r)) => some ⟨t, U, r, false⟩
  | ask t (.table U (.setCell _ r _)) => some ⟨t, U, r, true⟩
  | _ => none

end Effect

namespace Defaults.Population

/-- The records whose cells have not been done with. -/
def records (p : Population) : List String :=
  (p.spot :: p.rest).map (·.recordId)

end Defaults.Population

namespace Monitor

variable {s : MonitorSettings} {m : Monitor} {past later acts : List Act} {a : Act} {t : Nat}
variable {k : TaskKind} {ph : Phase} {es : List MonitorEvent} {T U V : OpenTable}
variable {ids : List String} {c : Touch}

/-- The cells that were turned to. -/
def touches (o : List Effect) : List Touch :=
  o.filterMap Effect.touch?

/-! ### Tasks through a part of a history -/

theorem run_concat (s : MonitorSettings) (es : List MonitorEvent) (e : MonitorEvent) :
    run s (es ++ [e]) = (run s es).step e := by
  simp [run]

theorem history_append (s : MonitorSettings) (es es' : List MonitorEvent) :
    history s (es ++ es') = history s es ++ actsFrom (run s es) es' :=
  actsFrom_append (initial s) es es'

theorem course_turn (s : MonitorSettings) (es : List MonitorEvent) (e : MonitorEvent) :
    Course s (history s es ++ (run s es).turn e) (run s (es ++ [e])) := by
  rw [← history_concat]
  exact course_run s (es ++ [e])

theorem after_nextTask_le (s : MonitorSettings) (past later : List Act) :
    (after s past).nextTask ≤ (after s (past ++ later)).nextTask := by
  induction later using List.reverseRecOn with
  | nil => simp
  | append_singleton later a ih =>
      rw [← List.append_assoc, after_concat]
      exact Nat.le_trans ih (nextTask_le a _)

/-- A task was there before a part of a history, for the same, or it was begun in that part. -/
theorem Course.kind_before (h : Course s (past ++ later) m) (hk : At m.tasks t k ph) :
    (∃ ph₀, At (after s past).tasks t k ph₀) ∨
      ((after s past).nextTask ≤ t ∧ ∃ a ∈ later, ∃ m', a.begins? m' = some k) := by
  induction later using List.reverseRecOn generalizing m ph with
  | nil =>
      rw [List.append_nil] at h
      rw [← h.eq_after]
      exact Or.inl ⟨ph, hk⟩
  | append_singleton later a ih =>
      rw [h.eq_after, ← List.append_assoc, after_concat] at hk
      rw [← List.append_assoc] at h
      obtain ⟨h₁, -⟩ := h.of_concat
      have hearlier {ph₀ : Phase} (hk : At (after s (past ++ later)).tasks t k ph₀) :
          (∃ ph₀, At (after s past).tasks t k ph₀) ∨
            ((after s past).nextTask ≤ t ∧ ∃ b ∈ later ++ [a], ∃ m', b.begins? m' = some k) :=
        (ih h₁ hk).imp_right fun ⟨hle, b, hb, hbm⟩ => ⟨hle, b, by simp [hb], hbm⟩
      obtain ⟨hk, -⟩ | ⟨-, ph₀, hk⟩ | ⟨hb, rfl, -⟩ := at_of_perform hk
      · exact hearlier hk
      · exact hearlier hk
      · exact Or.inr ⟨after_nextTask_le s past later, a, by simp, _, hb⟩

/-- A task that works on records did so before, in the same phase, or an act put it there. -/
theorem Course.populating_before (h : Course s (past ++ later) m) (hk : At m.tasks t k ph)
    (hp : ph.isPopulating = true) :
    At (after s past).tasks t k ph ∨ ∃ e, .populates t ph e ∈ later := by
  induction later using List.reverseRecOn generalizing m with
  | nil =>
      rw [List.append_nil] at h
      rw [← h.eq_after]
      exact Or.inl hk
  | append_singleton later a ih =>
      rw [h.eq_after, ← List.append_assoc, after_concat] at hk
      rw [← List.append_assoc] at h
      obtain ⟨h₁, ha⟩ := h.of_concat
      obtain ⟨hk, -⟩ | ⟨hm, -⟩ | ⟨-, -, rfl⟩ := at_of_perform hk
      · exact (ih h₁ hk).imp_right fun ⟨e, he⟩ => ⟨e, List.mem_append_left [a] he⟩
      · right
        cases a with
        | populates v ph' e =>
            obtain ⟨rfl, rfl⟩ : v = t ∧ ph' = ph := by simpa [Act.moves?] using hm
            exact ⟨e, by simp⟩
        | halts v =>
            simp only [Act.moves?] at hm
            split at hm
            · simp at hm
            · obtain ⟨-, rfl⟩ : v = t ∧ _ = ph := by simpa using hm
              simp [Phase.isPopulating] at hp
        | starts | switches | selects | serves | loads | pages | takes | reads | turns =>
            simp only [Act.moves?, Option.some.injEq, Prod.mk.injEq] at hm
            rw [← hm.2] at hp
            simp [Phase.isPopulating] at hp
        | _ => simp [Act.moves?] at hm
      · simp [Phase.isPopulating] at hp

/-- Nothing gives a task its first turn again. -/
theorem moves_not_ready (ha : a.Admissible past m) : a.moves? m ≠ some (t, .ready) := by
  intro hm
  cases a with
  | populates v ph' e =>
      obtain ⟨hp, -⟩ := ha
      obtain ⟨-, rfl⟩ : v = t ∧ ph' = .ready := by simpa [Act.moves?] using hm
      simp [Phase.isPopulating] at hp
  | halts v =>
      simp only [Act.moves?] at hm
      split at hm <;> simp at hm
  | _ => simp [Act.moves?] at hm

/-- An act in the turn of a task that is ready gives it a phase or ends it. -/
theorem moves_or_ends_of_ready (ha : a.Admissible past m) (hk : At m.tasks t k .ready)
    (hu : a.actor? = some t) : (∃ ph, a.moves? m = some (t, ph)) ∨ a.ends? m = some t := by
  have hf := fits_of_admissible ha hu hk
  cases a with
  | halts v =>
      obtain rfl := Option.some.inj hu
      by_cases ho : m.ownTasks.isEmpty = true
      · exact Or.inr (if_pos ho)
      · exact Or.inl ⟨_, if_neg ho⟩
  | starts v | switches v | serves v | populates v =>
      obtain rfl := Option.some.inj hu
      exact Or.inl ⟨_, rfl⟩
  | postpones v | drops v | lacks v | ends v | abandons v => exact Or.inr hu
  | selects | attaches | loads | pages | takes | reads | turns => cases hf
  | givesUp | publishes | closes => simp [Act.Fits, Phase.isAttaching, Phase.isPassing] at hf
  | _ => simp [Act.actor?] at hu

/-- A task that is ready still was so before, and has not had a turn since. -/
theorem Course.ready_before (h : Course s (past ++ later) m) (hk : At m.tasks t k .ready)
    (ht : t < (after s past).nextTask) :
    At (after s past).tasks t k .ready ∧ ∀ a ∈ later, a.actor? ≠ some t := by
  induction later using List.reverseRecOn generalizing m with
  | nil =>
      rw [List.append_nil] at h
      rw [← h.eq_after]
      exact ⟨hk, by simp⟩
  | append_singleton later a ih =>
      rw [h.eq_after, ← List.append_assoc, after_concat] at hk
      rw [← List.append_assoc] at h
      obtain ⟨h₁, ha⟩ := h.of_concat
      obtain ⟨hk₁, hm, he⟩ | ⟨hm, -⟩ | ⟨-, rfl, -⟩ := at_of_perform hk
      · obtain ⟨hb, hidle⟩ := ih h₁ hk₁
        refine ⟨hb, fun b hbm hu => ?_⟩
        simp only [List.mem_append, List.mem_singleton] at hbm
        obtain hbm | rfl := hbm
        · exact hidle b hbm hu
        · obtain ⟨ph, hm'⟩ | he' := moves_or_ends_of_ready ha hk₁ hu
          · exact hm ph hm'
          · exact he he'
      · exact absurd hm (moves_not_ready ha)
      · have hle := after_nextTask_le s past later
        omega

/-- The first turn of a task is a turn of its own. -/
theorem actor_of_begins (hk : At m.tasks t k .ready) :
    ∃ a ∈ m.turn (.begins t), a.actor? = some t := by
  have hx : m.task? t = some ⟨t, k, .ready⟩ := hk
  simp only [turn, taskOf?, hx, taskActs]
  cases k with
  | start =>
      simp only [beginActs]
      split
      · exact ⟨_, List.mem_singleton_self _, rfl⟩
      · exact ⟨_, List.mem_singleton_self _, rfl⟩
  | stop | switch => exact ⟨_, List.mem_singleton_self _, rfl⟩
  | trigger | elapsed =>
      simp only [beginActs, triggerActs]
      split
      · exact ⟨_, List.mem_singleton_self _, rfl⟩
      · split <;> exact ⟨_, List.mem_singleton_self _, rfl⟩
  | added ids =>
      simp only [beginActs, populateActs]
      split
      · exact ⟨.ends t .nothing, by simp, rfl⟩
      · split
        · exact ⟨.ends t .nothing, by simp, rfl⟩
        · exact ⟨_, List.mem_singleton_self _, rfl⟩

/-! ### The table in which records are worked on -/

/-- A task has had its first turn when a table was attached. -/
def TurnedIn (s : MonitorSettings) (es : List MonitorEvent) (t : Nat) (U : OpenTable) : Prop :=
  ∃ x y, es = x ++ .begins t :: y ∧ (∃ k, At (run s x).tasks t k .ready) ∧
    (run s x).table = some U

theorem TurnedIn.mono (h : TurnedIn s es t U) (es' : List MonitorEvent) :
    TurnedIn s (es ++ es') t U := by
  obtain ⟨x, y, rfl, hk, hU⟩ := h
  exact ⟨x, y ++ es', by simp, hk, hU⟩

/-- After its first turn a task is ready no longer. -/
theorem not_ready_again {x y : List MonitorEvent} {k' : TaskKind}
    (hk : At (run s x).tasks t k .ready) :
    ¬ At (run s (x ++ .begins t :: y)).tasks t k' .ready := by
  intro hk'
  have h : Course s (history s x ++ ((run s x).turn (.begins t) ++
      actsFrom ((run s x).step (.begins t)) y)) (run s (x ++ .begins t :: y)) := by
    have h₁ := course_run s (x ++ .begins t :: y)
    rwa [history_append, actsFrom] at h₁
  have ht : t < (after s (history s x)).nextTask := by
    rw [← run_eq_after]
    exact (course_run s x).task_lt hk
  obtain ⟨a, ha, hu⟩ := actor_of_begins hk
  exact (h.ready_before hk' ht).2 a (List.mem_append_left _ ha) hu

/-- A task has its first turn once. -/
theorem TurnedIn.unique (hU : TurnedIn s es t U) (hV : TurnedIn s es t V) : U = V := by
  obtain ⟨x, y, rfl, ⟨k, hk⟩, hU⟩ := hU
  obtain ⟨x', y', hx, ⟨k', hk'⟩, hV⟩ := hV
  obtain ⟨z, rfl, -⟩ | ⟨rfl, -, -⟩ | ⟨z, rfl, -⟩ := append_cons_cases hx
  · exact absurd hk' (not_ready_again hk)
  · simpa [hU] using hV
  · exact absurd hk (not_ready_again hk')

/-- What a task that works on records was begun for, and in which table it turned to them. -/
def Placed (s : MonitorSettings) (es : List MonitorEvent) (t : Nat) (k : TaskKind) : Phase → Prop
  | .adding U ids => k = .added ids ∧ TurnedIn s es t U
  | .populating U p => ∃ ids, k = .added ids ∧ p.records ⊆ ids ∧ TurnedIn s es t U
  | _ => True

theorem Placed.mono (h : Placed s es t k ph) (es' : List MonitorEvent) :
    Placed s (es ++ es') t k ph := by
  cases ph with
  | adding U ids => exact ⟨h.1, h.2.mono es'⟩
  | populating U p =>
      obtain ⟨ids, hk, hr, hU⟩ := h
      exact ⟨ids, hk, hr, hU.mono es'⟩
  | _ => trivial

open Defaults in
theorem records_turn {failures : List WriteFailure} {spots : List Spot} {p : Population}
    (h : Population.turn failures spots = .continues p) :
    p.records = spots.map (·.recordId) := by
  cases spots with
  | nil => simp [Population.turn] at h
  | cons x rest =>
      simp only [Population.turn, Next.continues.injEq] at h
      rw [← h]
      rfl

open Defaults in
/-- Populating begins with cells of the records that it is begun with. -/
theorem records_start {targets : List Target} {p : Population}
    (h : Population.start targets ids = .continues p) : p.records ⊆ ids := by
  intro r hr
  rw [records_turn h] at hr
  simp only [Population.spots, List.map_flatMap, List.mem_flatMap, List.map_map,
    List.mem_map] at hr
  obtain ⟨id, hid, _, -, rfl⟩ := hr
  exact hid

open Defaults in
/-- Populating goes on with cells that it had not done with. -/
theorem records_resume {policy : RetryPolicy} {p q : Population} {r : TableReply}
    (h : p.resume policy r = .continues q) : q.records ⊆ p.records := by
  have hsame (hs : q.spot = p.spot) (hr : q.rest = p.rest) : q.records ⊆ p.records := by
    rw [Population.records, Population.records, hs, hr]
    exact List.Subset.refl _
  have hnext {failures : List WriteFailure}
      (hn : Population.turn failures p.rest = .continues q) : q.records ⊆ p.records := by
    rw [records_turn hn]
    exact List.subset_cons_self _ _
  have hfail {w : Retry} {reason : String}
      (hn : p.afterFailure policy w reason = .continues q) : q.records ⊆ p.records := by
    simp only [Population.afterFailure] at hn
    split at hn
    · exact hnext hn
    · obtain rfl := Next.continues.inj hn
      exact hsame rfl rfl
  simp only [Population.resume] at h
  split at h
  · simp only [Population.afterRead] at h
    split at h
    · simp at h
    · split at h
      · split at h
        · simp at h
        · obtain rfl := Next.continues.inj h
          exact hsame rfl rfl
      · exact hnext h
  · exact hnext h
  · simp at h
  · exact hnext h
  · exact hfail h
  · exact hfail h
  · simp at h

open Defaults in
theorem records_wake {p q : Population} (h : p.wake = .continues q) :
    q.records = p.records := by
  simp only [Population.wake] at h
  split at h <;> obtain rfl := Next.continues.inj h <;> rfl

/-- The act that has a task go on with records places it. -/
theorem Arises.placed {e : MonitorEvent} {ef : Effect}
    (hb : ∀ {k ph}, At (run s es).tasks t k ph → Placed s es t k ph)
    (h : Arises (run s es) e (.populates t ph ef)) :
    ∃ k ph₀, At (run s es).tasks t k ph₀ ∧ Placed s (es ++ [e]) t k ph := by
  cases h with
  | plain hp => simp [Act.isPlain] at hp
  | turned hk hU => exact ⟨_, _, hk, rfl, es, [], rfl, ⟨_, hk⟩, hU⟩
  | found hk hn =>
      obtain ⟨rfl, hU⟩ := hb hk
      exact ⟨_, _, hk, _, rfl, records_start hn, hU.mono [e]⟩
  | resumed hk hn =>
      obtain ⟨ids, rfl, hr, hU⟩ := hb hk
      refine ⟨_, _, hk, ids, rfl, ?_, hU.mono [e]⟩
      obtain ⟨r, hn⟩ | hn := hn
      · exact List.Subset.trans (records_resume hn) hr
      · rw [records_wake hn]
        exact hr

/-- A task that works on records turned to them in the table that it works on. -/
theorem placed (s : MonitorSettings) (es : List MonitorEvent)
    (hk : At (run s es).tasks t k ph) : Placed s es t k ph := by
  induction es using List.reverseRecOn generalizing k ph with
  | nil => simp [run] at hk
  | append_singleton es e ih =>
      by_cases hp : ph.isPopulating = true
      · have h := course_turn s es e
        have hrun : after s (history s es) = run s es := (run_eq_after s es).symm
        obtain hk' | ⟨ef, he⟩ := h.populating_before hk hp
        · rw [hrun] at hk'
          exact (ih hk').mono [e]
        · obtain ⟨k₀, ph₀, hk₀, hpl⟩ := (arises_of_turn he).placed ih
          have hlt := (course_run s es).task_lt hk₀
          -- the task is for the same after the turn as before
          obtain ⟨ph₁, hk₁⟩ | ⟨hle, -⟩ := h.kind_before hk
          · rw [hrun] at hk₁
            rwa [(hk₁.unique hk₀).1]
          · rw [hrun] at hle
            omega
      · cases ph <;> trivial

/-! ### The cells that are turned to -/

@[simp] theorem touches_append (o o' : List Effect) :
    touches (o ++ o') = touches o ++ touches o' := by
  simp [touches]

theorem touches_arming (m : Monitor) : touches m.arming = [] := by
  cases h : m.timer <;> cases hr : m.running <;>
    simp [arming, disarming, h, hr, touches, Effect.touch?]

theorem touches_disarming (m : Monitor) : touches m.disarming = [] := by
  cases h : m.timer <;> simp [disarming, h, touches, Effect.touch?]

theorem touches_showing (m : Monitor) (d : Display) : touches (m.showing d) = [] := by
  cases h : m.settings.listener <;> simp [showing, h, touches, Effect.touch?]

theorem touches_map {α : Type} {f : α → Effect} (hf : ∀ x, (f x).touch? = none) (xs : List α) :
    touches (xs.map f) = [] := by
  simp [touches, List.filterMap_map, hf]

theorem touches_detaching (m : Monitor) : touches m.detaching = [] :=
  touches_map (fun _ => rfl) m.tableSubscriptions

theorem touches_call (t : Nat) (U : OpenTable) (q : RowQuery) (r : Reading) :
    (Effect.ask t (.table U (r.call q))).touch? = none := by
  cases r <;> rfl

/-- Only a task that works on records turns to cells. -/
theorem touches_effects (a : Act) (m : Monitor) :
    touches (a.effects m) =
      match a with
      | .populates _ _ e => e.touch?.toList
      | _ => [] := by
  cases a with
  | changes | arms => exact touches_arming m
  | elapses => cases hr : m.running <;> simp [Act.effects, hr, touches, Effect.touch?]
  | starts t =>
      cases hw : m.settings.watchesSelection <;>
        simp [Act.effects, hw, touches, Effect.touch?]
  | halts t =>
      have hsel : (m.selectionSubscription.map Effect.unsubscribe).toList =
          m.selectionSubscription.toList.map Effect.unsubscribe := by
        cases m.selectionSubscription <;> rfl
      have hu : touches (m.selectionSubscription.toList.map Effect.unsubscribe) = [] :=
        touches_map (fun _ => rfl) _
      have hc : touches (m.ownTasks.map Effect.cancel) = [] := touches_map (fun _ => rfl) _
      simp only [Act.effects, hsel, touches_append, touches_disarming, touches_detaching, hu]
      split
      · rfl
      · rw [touches_append, hc]
        rfl
  | switches t =>
      simp only [Act.effects, touches_append, touches_disarming, touches_detaching]
      rfl
  | selects t sel =>
      cases hs : sel.tableId.isTruthy <;> simp [Act.effects, hs, touches, Effect.touch?]
  | attaches t table =>
      cases ho : table.observable <;>
        simp [Act.effects, ho, recordSubscriptions, touches, Effect.touch?]
  | givesUp t e =>
      cases e with
      | failure message =>
          simp only [Act.effects, touches_append, touches_showing]
          rfl
      | fault f | unfinished => rfl
  | lacks t =>
      cases hs : m.switchPending <;>
        simp [Act.effects, hs, touches_showing, touches_arming] <;> rfl
  | closes t o =>
      cases hs : m.switchPending <;> simp [Act.effects, hs, touches_arming] <;> rfl
  | shows | publishes => exact touches_showing m _
  | loads t p columns | pages t p columns generation r =>
      simp [Act.effects, touches, touches_call]
  | populates t ph e => cases h : e.touch? <;> simp [Act.effects, touches, h]
  | _ => rfl

/-- A cell that was turned to was so before a part of a history, or an act in it turned to it. -/
theorem touches_after (hc : c ∈ touches (after s (past ++ later)).outbox) :
    c ∈ touches (after s past).outbox ∨
      ∃ t ph e, .populates t ph e ∈ later ∧ e.touch? = some c := by
  induction later using List.reverseRecOn with
  | nil =>
      rw [List.append_nil] at hc
      exact Or.inl hc
  | append_singleton later a ih =>
      rw [← List.append_assoc, after_concat, perform_outbox, touches_append, List.mem_append,
        touches_effects] at hc
      obtain hc | hc := hc
      · exact (ih hc).imp_right fun ⟨t, ph, e, he, hec⟩ => ⟨t, ph, e, by simp [he], hec⟩
      · right
        cases a with
        | populates t ph e => exact ⟨t, ph, e, by simp, Option.mem_toList.mp hc⟩
        | _ => simp at hc

/-- A cell that populating waits for is one of those that it has not done with. -/
theorem touch_of_population {p : Defaults.Population}
    (h : (populationEffect t U p).touch? = some c) :
    c.task = t ∧ c.table = U ∧ c.record ∈ p.records := by
  simp only [populationEffect, Defaults.Population.need] at h
  have hr : p.spot.recordId ∈ p.records := List.mem_cons_self
  cases hp : p.phase with
  | reading | writing r =>
      simp only [hp, Effect.touch?, Option.some.injEq] at h
      rw [← h]
      exact ⟨rfl, rfl, hr⟩
  | waiting wait r => simp [hp, Effect.touch?] at h

/-- Every cell that a task turns to is one of a record that it was begun for, in the table that was
attached when it had its first turn. -/
theorem touched (s : MonitorSettings) (es : List MonitorEvent)
    (hc : c ∈ touches (run s es).outbox) :
    ∃ ids, (∃ x y ph, es = x ++ y ∧ At (run s x).tasks c.task (.added ids) ph) ∧
      c.record ∈ ids ∧ TurnedIn s es c.task c.table := by
  induction es using List.reverseRecOn with
  | nil => simp [run, initial, touches] at hc
  | append_singleton es e ih =>
      rw [(course_turn s es e).eq_after] at hc
      obtain hc | ⟨t, ph, ef, he, hec⟩ := touches_after hc
      · rw [← run_eq_after] at hc
        obtain ⟨ids, ⟨x, y, ph, rfl, hk⟩, hr, hU⟩ := ih hc
        exact ⟨ids, ⟨x, y ++ [e], ph, by simp, hk⟩, hr, hU.mono [e]⟩
      · have ha := arises_of_turn he
        obtain ⟨k, ph₀, hk, hpl⟩ := ha.placed (placed s es)
        have hpop {U : OpenTable} {p : Defaults.Population}
            (hpl : Placed s (es ++ [e]) t k (.populating U p))
            (hec : (populationEffect t U p).touch? = some c) :
            ∃ ids, (∃ x y ph, es ++ [e] = x ++ y ∧ At (run s x).tasks c.task (.added ids) ph) ∧
              c.record ∈ ids ∧ TurnedIn s (es ++ [e]) c.task c.table := by
          obtain ⟨rfl, rfl, hr⟩ := touch_of_population hec
          obtain ⟨ids, rfl, hsub, hU⟩ := hpl
          exact ⟨ids, ⟨es, [e], ph₀, rfl, hk⟩, hsub hr, hU⟩
        cases ha with
        | plain hp => simp [Act.isPlain] at hp
        | turned => simp [Effect.touch?] at hec
        | found | resumed => exact hpop hpl hec

/-! ### Which table told of the records -/

/-- What happens to a monitor and to the tables of its source. -/
inductive TableStep
  /-- A table tells of records that were added to it. -/
  | adds (table : OpenTable) (ids : List String)
  | happens (e : MonitorEvent)

namespace TableStep

/-- What happens to the monitor. -/
def event : TableStep → MonitorEvent
  | adds _ ids => .recordsAdded ids
  | happens e => e

/-- Whether the monitor is told of added records by their table, if at all. -/
def isNamed : TableStep → Bool
  | happens (.recordsAdded _) => false
  | happens (.request (.added _)) => false
  | _ => true

end TableStep

variable {steps : List TableStep} {st : TableStep}

/-- A task was begun because a table told of records. -/
def BegunFor (s : MonitorSettings) (steps : List TableStep) (t : Nat) (T : OpenTable)
    (ids : List String) : Prop :=
  ∃ x y, steps = x ++ .adds T ids :: y ∧ (run s (x.map TableStep.event)).running = true ∧
    (run s (x.map TableStep.event)).nextTask = t

theorem BegunFor.mono (h : BegunFor s steps t T ids) (later : List TableStep) :
    BegunFor s (steps ++ later) t T ids := by
  obtain ⟨x, y, rfl, hr, ht⟩ := h
  exact ⟨x, y ++ later, by simp, hr, ht⟩

theorem step_recordsAdded (hr : m.running = true) (ids : List String) :
    (m.step (.recordsAdded ids)).nextTask = m.nextTask + 1 := by
  simp [step, taskOf?, whileRunning, hr, spawn, emit, invalidate]

theorem run_nextTask_le (s : MonitorSettings) (es es' : List MonitorEvent) :
    (run s es).nextTask ≤ (run s (es ++ es')).nextTask := by
  rw [run_eq_after, run_eq_after, history_append]
  exact after_nextTask_le s _ _

/-- A task is begun once. -/
theorem BegunFor.unique {ids' : List String} (h : BegunFor s steps t T ids)
    (h' : BegunFor s steps t U ids') : T = U ∧ ids = ids' := by
  obtain ⟨x, y, rfl, hr, ht⟩ := h
  obtain ⟨x', y', hx, hr', ht'⟩ := h'
  -- a table that tells later has a later task begun
  have hlater (x z : List TableStep) (T : OpenTable) (ids : List String)
      (hr : (run s (x.map TableStep.event)).running = true) :
      (run s (x.map TableStep.event)).nextTask <
        (run s ((x ++ .adds T ids :: z).map TableStep.event)).nextTask := by
    have hle := run_nextTask_le s (x.map TableStep.event ++ [.recordsAdded ids])
      (z.map TableStep.event)
    rw [run_concat, step_recordsAdded hr] at hle
    exact Nat.lt_of_succ_le (by simpa [TableStep.event] using hle)
  obtain ⟨z, rfl, -⟩ | ⟨rfl, he, -⟩ | ⟨z, rfl, -⟩ := append_cons_cases hx
  · have hlt := hlater x z T ids hr
    omega
  · simpa using he
  · have hlt := hlater x' z U ids' hr'
    omega

/-- A task for records that were added was begun because their table told of them. -/
theorem begun_for (hn : ∀ st ∈ steps, st.isNamed = true)
    (hk : At (run s (steps.map TableStep.event)).tasks t (.added ids) ph) :
    ∃ T, BegunFor s steps t T ids := by
  induction steps using List.reverseRecOn generalizing ph with
  | nil => simp [run] at hk
  | append_singleton steps st ih =>
      simp only [List.mem_append, List.mem_singleton, or_imp, forall_and, forall_eq] at hn
      rw [List.map_append, List.map_singleton] at hk
      have h := course_turn s (steps.map TableStep.event) st.event
      have hrun : after s (history s (steps.map TableStep.event)) =
          run s (steps.map TableStep.event) := (run_eq_after s _).symm
      obtain ⟨ph₀, hk₀⟩ | ⟨hle, a, ha, m', hb⟩ := h.kind_before hk
      · rw [hrun] at hk₀
        obtain ⟨T, hT⟩ := ih hn.1 hk₀
        exact ⟨T, hT.mono [st]⟩
      · obtain rfl : a = .spawns (.added ids) := by
          cases a with
          | spawns k => simpa [Act.begins?] using hb
          | elapses =>
              simp only [Act.begins?] at hb
              split at hb <;> simp at hb
          | _ => simp [Act.begins?] at hb
        have harises := arises_of_turn ha
        have hlt := (course_run s (steps.map TableStep.event ++ [st.event])).task_lt hk
        rw [hrun] at hle
        cases st with
        | adds T ids' =>
            obtain ⟨hr, rfl⟩ :
                (run s (steps.map TableStep.event)).running = true ∧ ids' = ids := by
              cases harises with
              | plain hp => simp [Act.isPlain] at hp
              | added _ hr => exact ⟨hr, rfl⟩
            rw [run_concat, TableStep.event, step_recordsAdded hr] at hlt
            exact ⟨T, steps, [], rfl, hr, by omega⟩
        | happens e =>
            have hnamed := hn.2
            cases e with
            | request | recordsAdded => cases harises <;> simp_all [Act.isPlain, TableStep.isNamed]
            | _ =>
                cases harises with
                | plain hp => simp [Act.isPlain] at hp

/-- Every cell that a task turns to is one of a record that a table told of when the task was begun,
in the table that was attached when the task had its first turn. It is a cell of the table that told
of the record exactly when that is the table that was attached then. -/
theorem additions_kept_iff (s : MonitorSettings) (steps : List TableStep)
    (hn : ∀ st ∈ steps, st.isNamed = true) :
    (∀ c ∈ touches (run s (steps.map TableStep.event)).outbox,
      ∃ T ids, BegunFor s steps c.task T ids ∧ c.record ∈ ids ∧
        TurnedIn s (steps.map TableStep.event) c.task c.table) ∧
      ((∀ c ∈ touches (run s (steps.map TableStep.event)).outbox,
          ∃ T ids, BegunFor s steps c.task T ids ∧ c.record ∈ ids ∧ c.table.id = T.id) ↔
        ∀ c ∈ touches (run s (steps.map TableStep.event)).outbox,
          ∃ T ids U, BegunFor s steps c.task T ids ∧
            TurnedIn s (steps.map TableStep.event) c.task U ∧ U.id = T.id) := by
  have horigin {c : Touch} (hc : c ∈ touches (run s (steps.map TableStep.event)).outbox) :
      ∃ T ids, BegunFor s steps c.task T ids ∧ c.record ∈ ids ∧
        TurnedIn s (steps.map TableStep.event) c.task c.table := by
    obtain ⟨ids, ⟨x, y, ph, hx, hk⟩, hr, hU⟩ := touched s _ hc
    obtain ⟨before, later, rfl, rfl, -⟩ := List.map_eq_append_iff.mp hx
    have hb (st : TableStep) (hst : st ∈ before) : st.isNamed = true :=
      hn st (List.mem_append_left later hst)
    obtain ⟨T, hT⟩ := begun_for hb hk
    exact ⟨T, ids, hT.mono later, hr, hU⟩
  refine ⟨fun c hc => horigin hc, fun h c hc => ?_, fun h c hc => ?_⟩
  · obtain ⟨T, ids, hT, -, hid⟩ := h c hc
    obtain ⟨-, -, -, -, hU⟩ := horigin hc
    exact ⟨T, ids, c.table, hT, hU, hid⟩
  · obtain ⟨T, ids, U, hT, hU, hid⟩ := h c hc
    obtain ⟨T', ids', hT', hr, hU'⟩ := horigin hc
    obtain ⟨rfl, rfl⟩ := hT.unique hT'
    rw [← hU'.unique hU] at hid
    exact ⟨T, ids, hT, hr, hid⟩

/-- A column of texts whose new cells hold a text. -/
def titled : Column :=
  ⟨"title", "Title", .text, .text "\x7b\"validator\": \"string|default:new\"\x7d", .null⟩

/-- A record is added to the table that is attached. -/
def plainAddition : List TableStep :=
  [.happens (.request .start), .happens (.begins 0),
    .happens (.replied 0 (.selection ⟨.text "orders", .null⟩)),
    .happens (.replied 0 (.opened true)), .adds ⟨0, .text "orders", true⟩ ["r1"],
    .happens (.begins 1), .happens (.replied 1 (.table (.fields [titled]))),
    .happens (.replied 1 (.table (.cell .null)))]

theorem plainAddition_kept :
    (touches (run watching (plainAddition.map TableStep.event)).outbox).map
        (fun c => (c.task, c.record, c.writes)) = [(1, "r1", false), (1, "r1", true)] ∧
      ∀ c ∈ touches (run watching (plainAddition.map TableStep.event)).outbox,
        ∃ T ids, BegunFor watching plainAddition c.task T ids ∧ c.record ∈ ids ∧
          c.table.id = T.id := by
  have htouch : (touches (run watching (plainAddition.map TableStep.event)).outbox).map
      (fun c => (c.task, c.record, c.writes)) = [(1, "r1", false), (1, "r1", true)] := by
    decide +kernel
  have hn : ∀ st ∈ plainAddition, st.isNamed = true := by simp [plainAddition, TableStep.isNamed]
  obtain ⟨-, h⟩ := additions_kept_iff watching plainAddition hn
  refine ⟨htouch, h.mpr fun c hc => ?_⟩
  have ht : c.task = 1 := by
    have hmem := List.mem_map_of_mem (f := fun c => (c.task, c.record, c.writes)) hc
    rw [htouch] at hmem
    simp at hmem
    omega
  rw [ht]
  refine ⟨⟨0, .text "orders", true⟩, ["r1"], ⟨0, .text "orders", true⟩,
    ⟨plainAddition.take 4, plainAddition.drop 5, rfl, rfl, rfl⟩,
    ⟨(plainAddition.take 5).map TableStep.event, (plainAddition.drop 6).map TableStep.event, rfl,
      ⟨_, rfl⟩, rfl⟩, rfl⟩

/-- Two switches that overlap leave both tables live, and a record is added to the one that is not
attached. -/
def strayAddition : List TableStep :=
  overlappingSwitches.map TableStep.happens ++
    [.adds ⟨1, .text "invoices", true⟩ ["r1"], .happens (.begins 3),
      .happens (.replied 3 (.table (.fields [titled]))),
      .happens (.replied 3 (.table (.cell .null)))]

/-- The default is written into the attached table, not into the one that tells of the record. -/
theorem strayAddition_misplaced :
    Live (run watching overlappingSwitches).outbox ⟨1, .text "invoices", true⟩ ∧
      BegunFor watching strayAddition 3 ⟨1, .text "invoices", true⟩ ["r1"] ∧
      ∃ c ∈ touches (run watching (strayAddition.map TableStep.event)).outbox,
        c.task = 3 ∧ c.record = "r1" ∧ c.writes = true ∧ c.table = ⟨2, .text "orders", true⟩ := by
  have htouch : (touches (run watching (strayAddition.map TableStep.event)).outbox).map
      (fun c => (c.task, c.record, c.writes)) = [(3, "r1", false), (3, "r1", true)] := by
    decide +kernel
  have hturned : TurnedIn watching (strayAddition.map TableStep.event) 3
      ⟨2, .text "orders", true⟩ :=
    ⟨(strayAddition.take 13).map TableStep.event, (strayAddition.drop 14).map TableStep.event, rfl,
      ⟨_, rfl⟩, rfl⟩
  have hlive : Live (run watching overlappingSwitches).outbox ⟨1, .text "invoices", true⟩ := by
    refine (course_run watching overlappingSwitches).live_iff.mpr
      ⟨(history watching overlappingSwitches).take 11, 1,
        (history watching overlappingSwitches).drop 12, rfl, rfl, fun b hb => ?_⟩
    obtain rfl : .attaches 2 ⟨2, .text "orders", true⟩ = b := Option.some.inj hb
    rfl
  refine ⟨hlive, ⟨strayAddition.take 12, strayAddition.drop 13, rfl, rfl, rfl⟩, ?_⟩
  have hmem : (3, "r1", true) ∈ (touches
      (run watching (strayAddition.map TableStep.event)).outbox).map
        (fun c => (c.task, c.record, c.writes)) := by
    rw [htouch]
    simp
  obtain ⟨c, hc, he⟩ := List.mem_map.mp hmem
  obtain ⟨ht, hr, hw⟩ : c.task = 3 ∧ c.record = "r1" ∧ c.writes = true := by simpa using he
  obtain ⟨-, -, -, hU⟩ := touched watching _ hc
  rw [ht] at hU
  exact ⟨c, hc, ht, hr, hw, hU.unique hturned⟩

end Monitor

end TableAudit
