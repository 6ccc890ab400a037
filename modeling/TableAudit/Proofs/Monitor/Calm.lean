import TableAudit.Proofs.Monitor.Actor
import TableAudit.Proofs.Monitor.Exclusion
import TableAudit.Proofs.Monitor.Timers

/-!
# Calm monitors

A calm monitor comes to a trigger by its timer alone. What happens to it, apart from changes and the
timer itself, leaves the timer and the number of passes as they are.
-/

namespace TableAudit

namespace Act

/-- Whether an act neither starts nor stops a timer, comes to no trigger, and begins no task that
does, unless a pass is to follow the one under way. -/
def isQuiet : Act → Bool
  | .spawns k => k = .start
  | .forgets => true
  | .loads .. => true
  | .pages .. => true
  | .takes .. => true
  | .reads .. => true
  | .announces .. => true
  | .turns .. => true
  | .shows _ => true
  | .publishes .. => true
  | .closes .. => true
  | .ends .. => true
  | .abandons _ => true
  | _ => false

end Act

namespace Monitor

variable {s : MonitorSettings} {m m' : Monitor} {past acts : List Act} {a : Act} {t : Nat}
variable {e : MonitorEvent} {k : TaskKind} {ph : Phase}

/-- Whether a task makes a pass, waits for other tasks to end, or waits for its first turn after the
timer began it or someone asked for a start. -/
def Bides (k : TaskKind) (ph : Phase) : Prop :=
  ph.isPassing = true ∨ (∃ others, ph = .stopping others) ∨
    ph = .ready ∧ (k = .start ∨ k = .elapsed)

/-- A task that the timer began waits for its first turn. -/
def Summoned (m : Monitor) (t : Nat) : Prop :=
  At m.tasks t .elapsed .ready

/-- A monitor that runs, and comes to a trigger by its timer alone. -/
structure Calm (m : Monitor) : Prop where
  running : m.running = true
  settled : m.switchPending = false
  bides : ∀ t k ph, At m.tasks t k ph → Bides k ph

/-- Whether what happens is nobody else's trigger, and gives up no task of the timer. A start that
is asked for of a monitor that runs only tells what it shows. -/
def Leaves (m : Monitor) : MonitorEvent → Prop
  | .request k => k = .start
  | .recordsAdded _ => False
  | .selectionChanged => False
  | .cancelled t => ¬ Summoned m t
  | _ => True

/-- What a calm monitor keeps while it waits for its timer. -/
structure Keeps (m m' : Monitor) : Prop where
  calm : Calm m'
  timer : m'.timer = m.timer
  nextTimer : m'.nextTimer = m.nextTimer
  passesStarted : m'.passesStarted = m.passesStarted
  inFlight : m'.inFlight = true → m.inFlight = true
  summoned : ∀ t, Summoned m' t ↔ Summoned m t

theorem Keeps.refl (h : Calm m) : Keeps m m :=
  ⟨h, rfl, rfl, rfl, id, fun _ => Iff.rfl⟩

theorem Keeps.trans {m'' : Monitor} (h : Keeps m m') (h' : Keeps m' m'') : Keeps m m'' where
  calm := h'.calm
  timer := h'.timer.trans h.timer
  nextTimer := h'.nextTimer.trans h.nextTimer
  passesStarted := h'.passesStarted.trans h.passesStarted
  inFlight hf := h.inFlight (h'.inFlight hf)
  summoned t := (h'.summoned t).trans (h.summoned t)

theorem quiet_moves (ha : a.Admissible past m) (hq : a.isQuiet = true)
    (hm : a.moves? m = some (t, ph)) : ph.isPassing = true := by
  cases a with
  | loads | pages | takes | reads | turns =>
      simp only [Act.moves?, Option.some.injEq, Prod.mk.injEq] at hm
      rw [← hm.2]
      rfl
  | _ => simp_all [Act.moves?, Act.isQuiet]

theorem quiet_begins (hq : a.isQuiet = true) (hb : a.begins? m = some k) : k = .start := by
  cases a with
  | spawns k' =>
      obtain rfl := Option.some.inj hb
      simpa [Act.isQuiet] using hq
  | _ => simp_all [Act.begins?, Act.isQuiet]

/-- A quiet act leaves a task alone that the timer began, unless it gives it up. -/
theorem summoned_quiet (ha : a.Admissible past m) (hq : a.isQuiet = true)
    (hn : ∀ u, Summoned m u → a ≠ .abandons u) : Summoned (a.perform m) t ↔ Summoned m t := by
  constructor
  · intro ht
    obtain ⟨ht, -⟩ | ⟨hm, -⟩ | ⟨hb, -⟩ := at_of_perform ht
    · exact ht
    · exact absurd hm (moves_not_ready ha)
    · simpa using quiet_begins hq hb
  · intro ht
    obtain ht' | htr | rfl := elapsed_waits ha ht
    · exact ht'
    · cases a <;> simp_all [Act.isTrigger, Act.isQuiet]
    · exact absurd rfl (hn t ht)

theorem Calm.quiet_act (h : Calm m) (ha : a.Admissible past m) (hq : a.isQuiet = true)
    (hn : ∀ u, Summoned m u → a ≠ .abandons u) : Keeps m (a.perform m) where
  calm :=
    { running := by
        rw [perform_running, ← h.running]
        cases a <;> simp_all [Act.isQuiet]
      settled := by
        cases a <;> simp_all [Act.isQuiet, Act.perform, Act.change, h.settled]
      bides := by
        intro t k ph hk
        obtain ⟨hk, -⟩ | ⟨hm, -⟩ | ⟨hb, -, rfl⟩ := at_of_perform hk
        · exact h.bides t k ph hk
        · exact Or.inl (quiet_moves ha hq hm)
        · exact Or.inr (Or.inr ⟨rfl, Or.inl (quiet_begins hq hb)⟩) }
  timer := by
    rw [timer_of_perform]
    cases a <;> simp_all [Act.isQuiet, Act.rearms, h.settled]
  nextTimer := by
    rw [perform_nextTimer]
    cases a <;> simp_all [Act.isQuiet, Act.rearms, h.settled]
  passesStarted := by
    rw [perform_passesStarted]
    cases a <;> simp_all [Act.isQuiet]
  inFlight := by
    rw [perform_inFlight]
    cases a <;> simp_all [Act.isQuiet]
  summoned t := summoned_quiet ha hq hn

theorem Course.quiet_acts (h : Course s (past ++ acts) m) (hc : Calm (after s past))
    (hq : ∀ a ∈ acts, a.isQuiet = true ∧ ∀ u, Summoned (after s past) u → a ≠ .abandons u) :
    Keeps (after s past) m := by
  induction acts using List.reverseRecOn generalizing m with
  | nil =>
      rw [List.append_nil] at h
      rw [h.eq_after]
      exact .refl hc
  | append_singleton acts a ih =>
      rw [← List.append_assoc] at h
      obtain ⟨h₁, ha⟩ := h.of_concat
      have hk := ih h₁ fun b hb => hq b (List.mem_append_left _ hb)
      obtain ⟨hqa, hna⟩ := hq a (by simp)
      rw [h.eq_after, after_concat]
      exact hk.trans (hk.calm.quiet_act ha hqa fun u hu => hna u ((hk.summoned u).mp hu))

theorem PassTurn.quiet {table : OpenTable} (h : PassTurn m t table acts) (ha : a ∈ acts) :
    a.isQuiet = true ∧ ∀ u, a ≠ .abandons u := by
  obtain hw | ⟨o, rfl⟩ | ⟨-, ⟨message, rfl⟩ | ⟨rows, r, rfl⟩⟩ := h.cases ha
  · cases a <;> simp_all [Act.furthers, Act.isQuiet]
  · simp [Act.isQuiet]
  · simp [Act.isQuiet]
  · simp [Act.isQuiet]

/-- A task of a calm monitor has quiet turns, apart from the first one after the timer began it. -/
theorem Calm.quiet_task (h : Calm m) (hl : Leaves m e) (he : taskOf? e = some t)
    (hb : ∀ u, e = .begins u → ¬ Summoned m u) (ha : a ∈ m.turn e) :
    a.isQuiet = true ∧ ∀ u, Summoned m u → a ≠ .abandons u := by
  cases hx : m.task? t with
  | none => simp [turn, he, hx] at ha
  | some x =>
      have hk := At.of_task? hx
      -- only the task whose turn it is is given up
      have hgiven (hn : ¬ Summoned m t) (u : Nat) (hu : Summoned m u) :
          Act.abandons t ≠ .abandons u := by
        intro ht
        obtain rfl := Act.abandons.inj ht
        exact hn hu
      obtain hp | ⟨others, hs⟩ | ⟨hr, hkind⟩ := h.bides _ _ _ hk
      · cases hph : x.phase with
        | passing p =>
            rw [hph] at hk
            obtain ⟨hq, hn⟩ := (passTurn_of_passing ⟨_, hk⟩ he).quiet ha
            exact ⟨hq, fun u _ => hn u⟩
        | _ => simp [hph, Phase.isPassing] at hp
      · rw [hs] at hk
        have hn : ¬ Summoned m t := fun hsum => by simpa using (hk.unique hsum).2
        obtain hx | hx | ⟨hx, -⟩ := turn_of_stopping hk he
        · simp [hx] at ha
        · rw [hx] at ha
          obtain rfl := List.mem_singleton.mp ha
          exact ⟨rfl, hgiven hn⟩
        · rw [hx] at ha
          obtain rfl := List.mem_singleton.mp ha
          exact ⟨rfl, by simp⟩
      · rw [hr] at hk
        obtain rfl | ⟨rfl, rfl⟩ := turn_of_ready hk he ha
        · obtain hkind | hkind := hkind
          · rw [hkind] at hk
            have hx' : m.task? t = some ⟨t, .start, .ready⟩ := hk
            simp only [turn, taskOf?, hx', taskActs, beginActs, h.running, if_true,
              List.mem_singleton] at ha
            subst ha
            exact ⟨rfl, by simp⟩
          · rw [hkind] at hk
            exact absurd hk (hb t rfl)
        · exact ⟨rfl, hgiven hl⟩

/-- Changes and the timer apart, a calm monitor has quiet turns. -/
theorem Calm.quiet_turn (h : Calm m) (hl : Leaves m e) (hc : e ≠ .recordsChanged)
    (he : ∀ i, e = .elapsed i → m.timer ≠ some i) (hb : ∀ u, e = .begins u → ¬ Summoned m u)
    (ha : a ∈ m.turn e) : a.isQuiet = true ∧ ∀ u, Summoned m u → a ≠ .abandons u := by
  cases ht : taskOf? e with
  | some t => exact h.quiet_task hl ht hb ha
  | none =>
      cases e with
      | request k =>
          obtain rfl : k = .start := hl
          obtain rfl := List.mem_singleton.mp ha
          exact ⟨rfl, by simp⟩
      | recordsChanged => exact absurd rfl hc
      | elapsed i => simp [turn, ht, he i rfl] at ha
      | invalidated =>
          obtain rfl := List.mem_singleton.mp ha
          exact ⟨rfl, by simp⟩
      | recordsAdded | selectionChanged => exact absurd hl id
      | _ => simp [taskOf?] at ht

/-! ### One step -/

theorem Course.step_quiet (h : Course s past m) (hm : Calm m) (hl : Leaves m e)
    (hc : e ≠ .recordsChanged) (he : ∀ i, e = .elapsed i → m.timer ≠ some i)
    (hb : ∀ u, e = .begins u → ¬ Summoned m u) : Keeps m (m.step e) := by
  have h₁ := h.step e
  have hq : ∀ a ∈ m.turn e, a.isQuiet = true ∧ ∀ u, Summoned m u → a ≠ .abandons u :=
    fun a ha => hm.quiet_turn hl hc he hb ha
  have hk := h₁.quiet_acts
  rw [← h.eq_after] at hk
  exact hk hm hq

/-- A change starts the timer afresh. -/
theorem Course.changed (h : Course s past m) (hm : Calm m) :
    Calm (m.step .recordsChanged) ∧ (m.step .recordsChanged).timer = some m.nextTimer ∧
      (m.step .recordsChanged).nextTimer = m.nextTimer + 1 ∧
      (m.step .recordsChanged).passesStarted = m.passesStarted ∧
      ∀ t, Summoned (m.step .recordsChanged) t ↔ Summoned m t := by
  rw [h.step_single (a := .changes) (by simp [turn, taskOf?, hm.running])]
  refine ⟨⟨hm.running, hm.settled, hm.bides⟩, ?_, ?_, rfl, fun _ => Iff.rfl⟩
  · simp [timer_of_perform, Act.rearms, hm.running]
  · simp [perform_nextTimer, Act.rearms, hm.running]

/-- The timer runs down and begins a task. -/
theorem Course.elapsed (h : Course s past m) (hm : Calm m) {i : Nat} (hi : m.timer = some i)
    (hn : ∀ t, ¬ Summoned m t) :
    Calm (m.step (.elapsed i)) ∧ (m.step (.elapsed i)).timer = none ∧
      (m.step (.elapsed i)).passesStarted = m.passesStarted ∧
      (m.step (.elapsed i)).inFlight = m.inFlight ∧
      ∀ t, Summoned (m.step (.elapsed i)) t ↔ t = m.nextTask := by
  have hfree : m.tasks.find? (·.number = m.nextTask) = none := by
    rw [Option.eq_none_iff_forall_ne_some]
    intro x hx
    exact absurd (h.task_lt (At.of_task? hx)) (by omega)
  rw [h.step_single (a := .elapses) (by simp [turn, taskOf?, hi])]
  simp only [Act.perform, Act.change, if_pos hm.running]
  refine ⟨⟨hm.running, hm.settled, fun t k ph hk => ?_⟩, trivial, trivial, trivial, fun t => ?_⟩
  · obtain hk | ⟨-, -, rfl, rfl⟩ := at_append.mp hk
    · exact hm.bides t k ph hk
    · exact Or.inr (Or.inr ⟨rfl, Or.inr rfl⟩)
  · simp only [Summoned, at_append, and_true] at hn ⊢
    constructor
    · rintro (ht | ⟨-, ht⟩)
      · exact absurd ht (hn t)
      · exact ht
    · rintro rfl
      exact Or.inr ⟨hfree, rfl⟩

/-- The task that the timer began has its first turn, and comes to its trigger. -/
theorem Course.begins_pass (h : Course s past m) (hm : Calm m) (ht : Summoned m t)
    (hf : m.inFlight = false) :
    Calm (m.step (.begins t)) ∧ (m.step (.begins t)).timer = m.timer ∧
      (m.step (.begins t)).passesStarted = m.passesStarted + 1 ∧
      ∀ u, Summoned (m.step (.begins t)) u ↔ u ≠ t ∧ Summoned m u := by
  have hx : m.task? t = some ⟨t, .elapsed, .ready⟩ := ht
  have hturn : m.turn (.begins t) = m.triggerActs t := by
    simp [turn, taskOf?, hx, taskActs, beginActs]
  cases htable : m.table with
  | none =>
      rw [h.step_single (a := .lacks t) (by simp [hturn, triggerActs, hf, htable])]
      refine ⟨⟨hm.running, rfl, fun u k ph hk => ?_⟩, ?_, rfl, fun u => at_without⟩
      · exact hm.bides u k ph (at_without.mp hk).2
      · simp [timer_of_perform, Act.rearms, hm.settled]
  | some table =>
      rw [h.step_single (a := .serves t table m.selection.viewId)
        (by simp [hturn, triggerActs, hf, htable])]
      refine ⟨⟨hm.running, hm.settled, fun u k ph hk => ?_⟩, rfl, rfl, fun u => ?_⟩
      · obtain ⟨-, hk⟩ | ⟨-, rfl, -⟩ := at_withPhase.mp hk
        · exact hm.bides u k ph hk
        · exact Or.inl rfl
      · simp [Summoned, Act.perform, Act.change, at_withPhase]

end Monitor

end TableAudit
