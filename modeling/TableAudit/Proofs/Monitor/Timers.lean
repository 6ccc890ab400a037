import TableAudit.Proofs.Monitor.Additions

/-!
# Timers

Timers are numbered as they are started. The monitor holds the last one or none, and lets go of none
without stopping it unless it has run down. So a timer that goes on running is the one that is held.
-/

namespace TableAudit

namespace Act

/-- Whether an act starts the timer afresh. -/
def rearms : Act → Monitor → Bool
  | .changes, m => m.running
  | .arms, m => m.running
  | .lacks _, m => m.switchPending && m.running
  | .closes _ _, m => m.switchPending && m.running
  | _, _ => false

/-- Whether an act stops the timer, and starts none. -/
def disarms : Act → Bool
  | .halts _ => true
  | .switches _ => true
  | _ => false

end Act

namespace Monitor

variable {s : MonitorSettings} {m : Monitor} {past acts : List Act} {a : Act} {t i : Nat}
variable {o o' : List Effect} {es : List MonitorEvent}

/-- The timers that were started. -/
def startedTimers (o : List Effect) : List Nat :=
  o.filterMap fun
    | .arm i _ => some i
    | _ => none

/-- The timers that were stopped. -/
def stoppedTimers (o : List Effect) : List Nat :=
  o.filterMap fun
    | .disarm i => some i
    | _ => none

@[simp] theorem startedTimers_append :
    startedTimers (o ++ o') = startedTimers o ++ startedTimers o' := by
  simp [startedTimers]

@[simp] theorem stoppedTimers_append :
    stoppedTimers (o ++ o') = stoppedTimers o ++ stoppedTimers o' := by
  simp [stoppedTimers]

theorem timers_of_other {xs : List Effect} (ha : ∀ i d, .arm i d ∉ xs) (hd : ∀ i, .disarm i ∉ xs) :
    startedTimers xs = [] ∧ stoppedTimers xs = [] := by
  simp only [startedTimers, stoppedTimers, List.filterMap_eq_nil_iff]
  constructor
  · intro e he
    cases e with
    | arm i d => exact absurd he (ha i d)
    | _ => rfl
  · intro e he
    cases e with
    | disarm i => exact absurd he (hd i)
    | _ => rfl

theorem timers_disarming (m : Monitor) :
    startedTimers m.disarming = [] ∧ stoppedTimers m.disarming = m.timer.toList := by
  cases h : m.timer <;> simp [disarming, h, startedTimers, stoppedTimers]

theorem timers_arming (m : Monitor) :
    startedTimers m.arming = (if m.running then [m.nextTimer] else []) ∧
      stoppedTimers m.arming = if m.running then m.timer.toList else [] := by
  cases hr : m.running with
  | false => simp [arming, hr, startedTimers, stoppedTimers]
  | true =>
      obtain ⟨hs, ht⟩ := timers_disarming m
      simp only [arming, hr, if_true, startedTimers_append, stoppedTimers_append, hs, ht]
      simp [startedTimers, stoppedTimers]

/-- What an act does to timers. -/
theorem timers_effects (ha : a.Admissible past m) :
    startedTimers (a.effects m) = (if a.rearms m then [m.nextTimer] else []) ∧
      stoppedTimers (a.effects m) = if a.rearms m || a.disarms then m.timer.toList else [] := by
  have hshow (d : Display) : startedTimers (m.showing d) = [] ∧ stoppedTimers (m.showing d) = [] :=
    timers_of_other (by simp [showing]) (by simp [showing])
  have hone (e : Effect) (hs : ∀ i d, e ≠ .arm i d) (ht : ∀ i, e ≠ .disarm i) :
      startedTimers [e] = [] ∧ stoppedTimers [e] = [] :=
    timers_of_other (fun i d h => hs i d (List.mem_singleton.mp h).symm)
      fun i h => ht i (List.mem_singleton.mp h).symm
  have harm := timers_arming m
  have hdis := timers_disarming m
  have hdet : startedTimers m.detaching = [] ∧ stoppedTimers m.detaching = [] :=
    timers_of_other (by simp [detaching]) (by simp [detaching])
  cases a with
  | changes | arms =>
      cases hr : m.running <;> simpa [Act.effects, Act.rearms, Act.disarms, hr] using harm
  | lacks t | closes t o =>
      cases hs : m.switchPending <;> cases hr : m.running <;>
        simp [Act.effects, Act.rearms, Act.disarms, hs, hr, hshow, hone, harm]
  | halts t =>
      have hsel : startedTimers (m.selectionSubscription.map Effect.unsubscribe).toList = [] ∧
          stoppedTimers (m.selectionSubscription.map Effect.unsubscribe).toList = [] :=
        timers_of_other (by simp) (by simp)
      have hcancel : startedTimers (m.ownTasks.map Effect.cancel) = [] ∧
          stoppedTimers (m.ownTasks.map Effect.cancel) = [] :=
        timers_of_other (by simp) (by simp)
      cases ho : m.ownTasks.isEmpty <;>
        simp [Act.effects, Act.rearms, Act.disarms, ho, hdis, hdet, hsel, hcancel, hone]
  | switches t =>
      simp [Act.effects, Act.rearms, Act.disarms, hdis, hdet, hone]
  | populates t ph e =>
      obtain ⟨-, ⟨c, rfl⟩ | ⟨w, rfl⟩, -⟩ := ha
      · exact ⟨rfl, rfl⟩
      · exact ⟨rfl, rfl⟩
  | elapses | starts | selects | attaches =>
      refine timers_of_other ?_ ?_ <;> simp only [Act.effects] <;> split <;>
        simp [recordSubscriptions]
  | givesUp t e =>
      cases e <;> simp [Act.effects, Act.rearms, Act.disarms, hshow, hone]
  | shows | publishes => exact hshow _
  | _ => exact ⟨rfl, rfl⟩

theorem perform_startedTimers (ha : a.Admissible past m) :
    startedTimers (a.perform m).outbox =
      startedTimers m.outbox ++ if a.rearms m then [m.nextTimer] else [] := by
  rw [perform_outbox, startedTimers_append, (timers_effects ha).1]

theorem perform_stoppedTimers (ha : a.Admissible past m) :
    stoppedTimers (a.perform m).outbox =
      stoppedTimers m.outbox ++ if a.rearms m || a.disarms then m.timer.toList else [] := by
  rw [perform_outbox, stoppedTimers_append, (timers_effects ha).2]

theorem perform_nextTimer (a : Act) (m : Monitor) :
    (a.perform m).nextTimer = if a.rearms m then m.nextTimer + 1 else m.nextTimer := by
  cases a with
  | elapses => cases h : m.running <;> simp [Act.perform, Act.change, Act.rearms, h]
  | givesUp t e => cases e <;> rfl
  | lacks t | closes t o =>
      cases hs : m.switchPending <;> cases hr : m.running <;>
        simp [Act.perform, Act.change, Act.rearms, armedNext, hs, hr]
  | _ => rfl

/-- The timer after an act: a new one, none, or the one before. -/
theorem timer_of_perform (a : Act) (m : Monitor) :
    (a.perform m).timer =
      if a.rearms m then some m.nextTimer
      else match a with
        | .elapses => none
        | .halts _ => none
        | .switches _ => none
        | _ => m.timer := by
  cases a with
  | elapses => cases h : m.running <;> simp [Act.perform, Act.change, Act.rearms, h]
  | givesUp t e => cases e <;> rfl
  | lacks t | closes t o =>
      cases hs : m.switchPending <;> cases hr : m.running <;>
        simp [Act.perform, Act.change, Act.rearms, armed, hs, hr]
  | _ => rfl

theorem nextTimer_le (a : Act) (m : Monitor) : m.nextTimer ≤ (a.perform m).nextTimer := by
  rw [perform_nextTimer]
  split <;> omega

/-- What is known of timers: they are numbered as they are started, and the one that is held was
started last and has not been stopped. -/
structure TimersKnown (m : Monitor) : Prop where
  started : startedTimers m.outbox = List.range m.nextTimer
  stopped : ∀ i ∈ stoppedTimers m.outbox, i < m.nextTimer
  held : ∀ i, m.timer = some i → i + 1 = m.nextTimer ∧ i ∉ stoppedTimers m.outbox

theorem TimersKnown.act (h : TimersKnown m) (ha : a.Admissible past m) :
    TimersKnown (a.perform m) where
  started := by
    rw [perform_startedTimers ha, perform_nextTimer, h.started]
    split
    · rw [List.range_succ]
    · rw [List.append_nil]
  stopped i hi := by
    rw [perform_stoppedTimers ha, List.mem_append] at hi
    have hlt : i < m.nextTimer := by
      obtain hi | hi := hi
      · exact h.stopped i hi
      · split at hi
        · have := (h.held i (Option.mem_toList.mp hi)).1
          omega
        · simp at hi
    rw [perform_nextTimer]
    split <;> omega
  held i hi := by
    rw [timer_of_perform] at hi
    rw [perform_nextTimer, perform_stoppedTimers ha]
    split at hi
    next hr =>
      obtain rfl := Option.some.inj hi
      refine ⟨by simp [hr], ?_⟩
      simp only [hr, Bool.true_or, if_true, List.mem_append, not_or]
      refine ⟨fun hs => absurd (h.stopped _ hs) (by omega), fun hs => ?_⟩
      have := (h.held _ (Option.mem_toList.mp hs)).1
      omega
    next hr =>
      split at hi
      · simp at hi
      · simp at hi
      · simp at hi
      next hh hs =>
        have hd : a.disarms = false := by
          cases a <;> simp_all [Act.disarms]
        simpa [hr, hd] using h.held i hi

theorem Course.timers_known (h : Course s past m) : TimersKnown m := by
  induction h with
  | initial =>
      exact ⟨rfl, by simp [Monitor.initial, stoppedTimers], by simp [Monitor.initial]⟩
  | act a h ha ih => exact ih.act ha

theorem Course.mem_startedTimers (h : Course s past m) :
    i ∈ startedTimers m.outbox ↔ i < m.nextTimer := by
  rw [h.timers_known.started, List.mem_range]

/-- A timer that is no longer held is never held again. -/
theorem Course.let_go (h : Course s (past ++ acts) m) (hi : i < (after s past).nextTimer)
    (hn : (after s past).timer ≠ some i) : i < m.nextTimer ∧ m.timer ≠ some i := by
  induction acts using List.reverseRecOn generalizing m with
  | nil =>
      rw [List.append_nil] at h
      rw [h.eq_after]
      exact ⟨hi, hn⟩
  | append_singleton acts a ih =>
      rw [← List.append_assoc] at h
      obtain ⟨hlt, hne⟩ := ih h.of_append
      rw [h.eq_after, after_concat]
      refine ⟨Nat.lt_of_lt_of_le hlt (nextTimer_le a _), ?_⟩
      rw [timer_of_perform]
      split
      · simp only [ne_eq, Option.some.injEq]
        omega
      · split
        · simp
        · simp
        · simp
        · exact hne

/-- A timer that was started is held, or was stopped, or was let go of before, unless it has run
down. -/
theorem Course.timer_fate (h : Course s (past ++ acts) m) (he : .elapses ∉ acts)
    (hi : i < m.nextTimer) :
    m.timer = some i ∨ i ∈ stoppedTimers m.outbox ∨
      i < (after s past).nextTimer ∧ (after s past).timer ≠ some i := by
  induction acts using List.reverseRecOn generalizing m with
  | nil =>
      rw [List.append_nil] at h
      rw [h.eq_after] at hi ⊢
      by_cases ht : (after s past).timer = some i
      · exact Or.inl ht
      · exact Or.inr (Or.inr ⟨hi, ht⟩)
  | append_singleton acts a ih =>
      rw [← List.append_assoc] at h
      obtain ⟨h₁, ha⟩ := h.of_concat
      simp only [List.mem_append, List.mem_singleton, not_or] at he
      rw [h.eq_after, after_concat, perform_nextTimer] at hi
      rw [h.eq_after, after_concat, perform_stoppedTimers ha, timer_of_perform]
      by_cases hlt : i < (after s (past ++ acts)).nextTimer
      · obtain ht | hs | hb := ih h₁ he.1 hlt
        · split
          next hr => exact Or.inr (Or.inl (by simp [hr, ht]))
          next =>
            split
            · exact absurd rfl he.2
            · exact Or.inr (Or.inl (by simp [Act.disarms, ht]))
            · exact Or.inr (Or.inl (by simp [Act.disarms, ht]))
            · exact Or.inl ht
        · exact Or.inr (Or.inl (by simp [hs]))
        · exact Or.inr (Or.inr hb)
      · split at hi
        next hr =>
          left
          rw [if_pos hr]
          congr 1
          omega
        next => omega

/-- A timer was started, and it was neither stopped nor has it run down since. -/
def LiveTimer (s : MonitorSettings) (es : List MonitorEvent) (i : Nat) : Prop :=
  i ∈ startedTimers (run s es).outbox ∧ i ∉ stoppedTimers (run s es).outbox ∧
    ∀ x y, es = x ++ .elapsed i :: y → i ∉ startedTimers (run s x).outbox

/-- A timer that has run down is not held. -/
theorem timer_of_elapsed (m : Monitor) (i : Nat) : (m.step (.elapsed i)).timer ≠ some i := by
  simp only [step, taskOf?, whileRunning]
  split
  · split
    · simp [spawn, emit]
    · simp
  next ht => exact ht

theorem LiveTimer.of_concat {e : MonitorEvent} (h : LiveTimer s (es ++ [e]) i)
    (hi : i ∈ startedTimers (run s es).outbox) : LiveTimer s es i := by
  obtain ⟨-, ht, he⟩ := h
  refine ⟨hi, fun hst => ht ?_, fun x y hx => he x (y ++ [e]) (by simp [hx])⟩
  obtain ⟨new, hnew⟩ : (run s es).outbox <+: (run s (es ++ [e])).outbox := by
    rw [run_eq_after, run_eq_after, history_concat]
    exact outbox_prefix s _ _
  rw [← hnew, stoppedTimers_append]
  exact List.mem_append_left _ hst

theorem LiveTimer.held (h : LiveTimer s es i) : (run s es).timer = some i := by
  induction es using List.reverseRecOn with
  | nil => simp [LiveTimer, run, Monitor.initial, startedTimers] at h
  | append_singleton es e ih =>
      have hc := course_run s es
      have hc' := course_turn s es e
      have hlt := hc'.mem_startedTimers.mp h.1
      by_cases he : .elapses ∈ (run s es).turn e
      · obtain ⟨j, rfl, hj⟩ := elapsed_of_turn he
        have hturn : (run s es).turn (.elapsed j) = [.elapses] := by simp [turn, taskOf?, hj]
        rw [hturn] at hc'
        have hi : i ∈ startedTimers (run s es).outbox := by
          rw [hc'.eq_after, after_concat, ← run_eq_after, perform_nextTimer] at hlt
          exact hc.mem_startedTimers.mpr hlt
        have hheld := ih (h.of_concat hi)
        obtain rfl := Option.some.inj (hj.symm.trans hheld)
        exact absurd hi (h.2.2 es [] rfl)
      · obtain ht | hs | ⟨hi, hn⟩ := hc'.timer_fate he hlt
        · exact ht
        · exact absurd hs h.2.1
        · rw [← run_eq_after] at hi hn
          exact absurd (ih (h.of_concat (hc.mem_startedTimers.mpr hi))) hn

/-- The timer that goes on running is the one that is held. -/
theorem liveTimer_iff (s : MonitorSettings) (es : List MonitorEvent) (i : Nat) :
    LiveTimer s es i ↔ (run s es).timer = some i := by
  refine ⟨LiveTimer.held, fun h => ?_⟩
  have hc := course_run s es
  obtain ⟨hn, hs⟩ := hc.timers_known.held i h
  refine ⟨hc.mem_startedTimers.mpr (by omega), hs, ?_⟩
  rintro x y rfl hi
  -- it was let go of when it ran down
  have hle : (run s x).nextTimer ≤ (run s (x ++ [.elapsed i])).nextTimer := by
    simp only [run_concat, step, taskOf?, whileRunning]
    split
    · split
      · simp [spawn, emit]
      · simp
    · simp
  have hlt := (course_run s x).mem_startedTimers.mp hi
  have hy := course_run s (x ++ .elapsed i :: y)
  rw [List.append_cons, history_append] at hy
  refine (hy.let_go ?_ ?_).2 (by rwa [← List.append_cons])
  · rw [← run_eq_after]
    omega
  · rw [← run_eq_after, run_concat]
    exact timer_of_elapsed _ i

end Monitor

end TableAudit
