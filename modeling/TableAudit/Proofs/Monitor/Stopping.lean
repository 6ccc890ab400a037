import TableAudit.Proofs.Monitor.Actor
import TableAudit.Proofs.Monitor.Exclusion
import TableAudit.Proofs.Monitor.Provenance
import TableAudit.Proofs.Monitor.Timers

/-!
# Stops

A stop lets go of the timer and of the table. Until the next start nothing starts a timer, and what
happens to records and to the selection is ignored. A pass that was under way has lost its table for
good, so it shows nothing any more. A stop returns when the tasks that the monitor began are over.
-/

namespace TableAudit

namespace Monitor

variable {s : MonitorSettings} {m m' : Monitor} {past later acts : List Act} {a : Act} {t u : Nat}
variable {e : MonitorEvent} {before es : List MonitorEvent} {k : TaskKind} {p : PassRun}
variable {others : List Nat} {ph : Phase}

/-! ### Until the next start -/

/-- No task has its first turn in order to start the monitor. -/
def Unstarted (s : MonitorSettings) (before es : List MonitorEvent) : Prop :=
  ∀ x u y, es = x ++ .begins u :: y → ¬ At (run s (before ++ x)).tasks u .start .ready

/-- A monitor starts to run in the first turn of a task for it. -/
theorem starts_of_turn (h : Course s past m) (ha : .starts u ∈ m.turn e) :
    e = .begins u ∧ At m.tasks u .start .ready := by
  have he := actor_of_turn ha rfl
  obtain ⟨k, ph, hk⟩ := actor_alive ha rfl
  obtain ⟨x, y, hx⟩ := List.mem_iff_append.mp ha
  have h₁ := h.step e
  rw [hx, ← List.append_assoc] at h₁
  obtain ⟨h₂, -, hready⟩ := h₁.of_split
  have ht : u < (after s past).nextTask := by
    rw [← h.eq_after]
    exact h.task_lt hk
  obtain ⟨hready', -⟩ := h₂.ready_before hready ht
  rw [← h.eq_after] at hready'
  obtain hb | ⟨-, hc⟩ := turn_of_ready hready' he ha
  · exact ⟨hb, hready'⟩
  · simp at hc

/-- A monitor that neither runs nor has a timer gets none before it starts. -/
theorem Course.stays_still (h : Course s (past ++ acts) m) (hs : ∀ u, .starts u ∉ acts)
    (hr : (after s past).running = false) (ht : (after s past).timer = none) :
    m.running = false ∧ m.timer = none := by
  induction acts using List.reverseRecOn generalizing m with
  | nil =>
      rw [List.append_nil] at h
      rw [h.eq_after]
      exact ⟨hr, ht⟩
  | append_singleton acts a ih =>
      rw [← List.append_assoc] at h
      obtain ⟨hr₁, ht₁⟩ := ih h.of_append fun u hu => hs u (List.mem_append_left _ hu)
      have hrearms : a.rearms (after s (past ++ acts)) = false := by
        cases a <;> simp [Act.rearms, hr₁]
      rw [h.eq_after, after_concat, perform_running, timer_of_perform, hrearms]
      constructor
      · split
        next u => exact absurd (by simp) (hs u)
        · rfl
        · exact hr₁
      · simp only [Bool.false_eq_true, if_false]
        split
        · rfl
        · rfl
        · rfl
        · exact ht₁

/-- A monitor that ignores what happens to records, to the selection and to timers. -/
structure Deaf (m : Monitor) : Prop where
  disarmed : m.timer = none
  added : ∀ ids, m.step (.recordsAdded ids) = m
  changed : m.step .recordsChanged = m
  selection : m.step .selectionChanged = m
  elapsed : ∀ i, m.step (.elapsed i) = m

theorem Deaf.of_still (hr : m.running = false) (ht : m.timer = none) : Deaf m where
  disarmed := ht
  added ids := by simp [step, taskOf?, whileRunning, hr]
  changed := by simp [step, taskOf?, whileRunning, hr]
  selection := by simp [step, taskOf?, whileRunning, hr]
  elapsed i := by simp [step, taskOf?, ht]

/-- Until the next start a monitor that was stopped is deaf. -/
theorem still_until_start (hr : (run s before).running = false) (ht : (run s before).timer = none)
    (hs : Unstarted s before es) :
    (run s (before ++ es)).running = false ∧ (run s (before ++ es)).timer = none := by
  induction es using List.reverseRecOn with
  | nil => simpa using ⟨hr, ht⟩
  | append_singleton es e ih =>
      obtain ⟨hr₁, ht₁⟩ := ih fun x u y hx => hs x u (y ++ [e]) (by simp [hx])
      rw [← List.append_assoc]
      rw [run_eq_after] at hr₁ ht₁
      refine (course_turn s (before ++ es) e).stays_still (fun u hu => ?_) hr₁ ht₁
      obtain ⟨rfl, hk⟩ := starts_of_turn (course_run s (before ++ es)) hu
      exact hs es u [] rfl hk

/-! ### Passes that were under way -/

/-- What shows nothing: the display stays, and the listener is not called. -/
structure Silent (m m' : Monitor) : Prop where
  display : m'.display = m.display
  published : m'.published = m.published
  outbox : ∃ new, m'.outbox = m.outbox ++ new ∧ ∀ d, .publish d ∉ new

theorem Silent.refl (m : Monitor) : Silent m m :=
  ⟨rfl, rfl, [], by simp, by simp⟩

theorem Silent.trans {m'' : Monitor} (h : Silent m m') (h' : Silent m' m'') : Silent m m'' where
  display := h'.display.trans h.display
  published := h'.published.trans h.published
  outbox := by
    obtain ⟨x, hx, hn⟩ := h.outbox
    obtain ⟨y, hy, hn'⟩ := h'.outbox
    exact ⟨x ++ y, by rw [hy, hx, List.append_assoc], fun d hd =>
      (List.mem_append.mp hd).elim (hn d) (hn' d)⟩

theorem silent_act (m : Monitor) (ha : a.furthers t = true ∨ ∃ o, a = .closes t o) :
    Silent m (a.perform m) := by
  obtain ha | ⟨o, rfl⟩ := ha
  · cases a with
    | loads | pages | takes | reads | announces | turns =>
        exact ⟨rfl, rfl, _, rfl, by simp [Act.effects]⟩
    | _ => simp [Act.furthers] at ha
  · refine ⟨rfl, rfl, _, rfl, fun d hd => ?_⟩
    cases h : m.switchPending <;> simp [Act.effects, h] at hd

theorem Course.silent (h : Course s (past ++ acts) m)
    (ha : ∀ a ∈ acts, a.furthers t = true ∨ ∃ o, a = .closes t o) : Silent (after s past) m := by
  induction acts using List.reverseRecOn generalizing m with
  | nil =>
      rw [List.append_nil] at h
      rw [h.eq_after]
      exact .refl _
  | append_singleton acts a ih =>
      rw [← List.append_assoc] at h
      rw [h.eq_after, after_concat]
      exact (ih h.of_append fun b hb => ha b (List.mem_append_left _ hb)).trans
        (silent_act _ (ha a (by simp)))

/-- A table that was let go of is not attached again. -/
theorem Course.let_go_of (h : Course s (past ++ later) m) {T : OpenTable} {o : Nat}
    (hT : .attaches o T ∈ past) (hh : .halts t ∈ later) : sameTable m.table (some T) = false := by
  rw [Bool.eq_false_iff, ne_eq, h.sameTable_iff (List.mem_append_left _ hT)]
  intro hm
  exact (h.table_throughout hT hm).2.1 t hh

/-- A pass that was under way at a stop shows nothing. -/
theorem Course.silenced (h : Course s (past ++ later) m) (hp : Passing (after s past).tasks u p)
    (hh : .halts t ∈ later) (he : taskOf? e = some u) : Silent m (m.step e) := by
  obtain ⟨x, y, hserved⟩ := h.of_append.passing_served hp
  have hmem : .serves u p.table p.viewId ∈ past := by simp [hserved]
  have h₁ := h.step e
  have hm := h.eq_after
  cases hx : m.task? u with
  | none =>
      have hs : m.step e = m := by simp [Monitor.step, he, hx]
      rw [hs]
      exact .refl m
  | some task =>
      have hk := At.of_task? hx
      obtain ⟨q, hq⟩ := (h.served_passing (List.mem_append_left _ hmem)).2 _ _ hk
      rw [hq] at hk
      -- it is the same pass still, and its table was attached when it was served
      obtain ⟨r, hr, hrt⟩ := h.passing_since hmem ⟨_, hk⟩
      obtain rfl := hr.unique hp
      obtain ⟨h₀, -, htable, -⟩ := (hserved ▸ h.of_append).of_split
      obtain ⟨-, o, ho⟩ := h₀.table_newest htable
      have hgone : sameTable m.table (some q.table) = false := by
        rw [← hrt]
        have hpast : .attaches o r.table ∈ past := hserved ▸ List.mem_append_left _ ho
        exact h.let_go_of hpast hh
      have hturn := passTurn_of_passing ⟨_, hk⟩ he
      have hsilent : Silent (after s (past ++ later)) (m.step e) := by
        refine h₁.silent (t := u) fun a ha => ?_
        obtain hw | hc | ⟨hsame, -⟩ := hturn.cases ha
        · exact Or.inl hw
        · exact Or.inr hc
        · simp [hgone] at hsame
      rwa [← hm] at hsilent

/-! ### Tasks that the monitor began -/

/-- Whether a task has ended without a result. -/
def Returned (m : Monitor) (t : Nat) : Prop :=
  .ended t .nothing ∈ m.outbox

/-- Whether a task is there. -/
def Alive (m : Monitor) (t : Nat) : Prop :=
  ∃ k ph, At m.tasks t k ph

/-- A stop that waits for other tasks, or is over. It has not returned while they are there. -/
inductive Awaits (t : Nat) (others : List Nat) (m : Monitor) : Prop
  | waits (k : TaskKind) : At m.tasks t k (.stopping others) → ¬ Returned m t → Awaits t others m
  | gone : ¬ Alive m t → (Returned m t → ∀ u ∈ others, ¬ Alive m u) → Awaits t others m

theorem Awaits.step (h : Course s past m) (hw : Awaits t others m) (ht : t < m.nextTask)
    (ho : ∀ u ∈ others, u < m.nextTask) (e : MonitorEvent) : Awaits t others (m.step e) := by
  have h₁ := h.step e
  have hm := h.eq_after
  have hgone {v : Nat} (hv : v < m.nextTask) (hn : ¬ Alive m v) : ¬ Alive (m.step e) v := by
    rintro ⟨k, ph, hk⟩
    rw [hm] at hv hn
    exact h₁.gone hv (fun k ph hk => hn ⟨k, ph, hk⟩) hk
  cases hw with
  | waits k hk hret =>
      by_cases he : taskOf? e = some t
      · obtain hx | hx | ⟨hx, hothers⟩ := turn_of_stopping hk he
        · rw [hx, List.append_nil] at h₁
          rw [h₁.eq_after, ← hm]
          exact .waits k hk hret
        · rw [h.step_single hx]
          refine .gone ?_ fun hr => ?_
          · rintro ⟨k', ph, hk'⟩
            exact (at_without.mp hk').1 rfl
          · rw [Returned, perform_outbox, List.mem_append] at hr
            obtain hr | hr := hr
            · exact absurd hr hret
            · simp [Act.effects] at hr
        · rw [h.step_single hx]
          refine .gone ?_ fun _ u hu => ?_
          · rintro ⟨k', ph, hk'⟩
            exact (at_without.mp hk').1 rfl
          · rintro ⟨k', ph, hk'⟩
            exact hothers u hu k' ph (at_without.mp hk').2
      · have hn : ∀ a ∈ m.turn e, a.actor? ≠ some t := fun a ha hu => he (actor_of_turn ha hu)
        rw [hm] at hk hret
        exact .waits k (h₁.untouched hn hk) fun hr => hret (h₁.ended_before hn hr)
  | gone hn hret =>
      have hne : ∀ a ∈ m.turn e, a.actor? ≠ some t := fun a ha hu => hn (actor_alive ha hu)
      refine .gone (hgone ht hn) fun hr u hu => hgone (ho u hu) (hret ?_ u hu)
      rw [Returned, hm]
      exact h₁.ended_before hne hr

theorem awaits_run (ho : ∀ u ∈ others, u < (run s before).nextTask)
    (ht : t < (run s before).nextTask) (hw : Awaits t others (run s before))
    (es : List MonitorEvent) : Awaits t others (run s (before ++ es)) := by
  induction es using List.reverseRecOn with
  | nil => simpa using hw
  | append_singleton es e ih =>
      have hle := run_nextTask_le s before es
      rw [← List.append_assoc, run_concat]
      exact ih.step (course_run s (before ++ es)) (by omega)
        (fun u hu => Nat.lt_of_lt_of_le (ho u hu) hle) e

/-- When stop is called, the tasks that the monitor began are those that it waits for. -/
theorem awaits_of_stop (h : Course s past m) (hk : At m.tasks t .stop .ready)
    (hret : ¬ Returned m t) : Awaits t m.ownTasks (m.step (.begins t)) := by
  have hx : m.task? t = some ⟨t, .stop, .ready⟩ := hk
  rw [h.step_single (a := .halts t) (by simp [turn, taskOf?, hx, taskActs, beginActs])]
  by_cases ho : m.ownTasks.isEmpty = true
  · have htasks : ((Act.halts t).perform m).tasks = without t m.tasks := if_pos ho
    refine .gone ?_ fun _ u hu => ?_
    · rintro ⟨k, ph, hk'⟩
      rw [htasks] at hk'
      exact (at_without.mp hk').1 rfl
    · rw [List.isEmpty_iff.mp ho] at hu
      simp at hu
  · have hk' : At ((Act.halts t).perform m).tasks t .stop (.stopping m.ownTasks) :=
      hk.perform_moves (if_neg ho)
    refine .waits .stop hk' fun hr => ?_
    rw [Returned, perform_outbox, List.mem_append] at hr
    obtain hr | hr := hr
    · exact hret hr
    · simp [Act.effects, ho, disarming, detaching] at hr

theorem mem_ownTasks (hk : At m.tasks u k ph) (ho : k.isOwn = true) : u ∈ m.ownTasks := by
  refine List.mem_map.mpr ⟨⟨u, k, ph⟩, List.mem_filter.mpr ⟨?_, ho⟩, rfl⟩
  exact List.mem_of_find?_eq_some hk

theorem ownTasks_lt (h : Course s past m) (hu : u ∈ m.ownTasks) : u < m.nextTask := by
  obtain ⟨x, hx, rfl⟩ := List.mem_map.mp hu
  have hfound : (m.task? x.number).isSome = true :=
    List.find?_isSome.mpr ⟨x, (List.mem_filter.mp hx).1, by simp⟩
  obtain ⟨y, hy⟩ := Option.isSome_iff_exists.mp hfound
  exact h.task_lt (At.of_task? hy)

/-- Whenever stop is called: until the next start no timer goes on running, and what happens to
records, to the selection and to timers changes nothing. A pass that was under way shows nothing any
more. When the stop has returned, no task is there that the monitor began before. -/
theorem stop_effective (s : MonitorSettings) (before later : List MonitorEvent) (t : Nat)
    (hk : At (run s before).tasks t .stop .ready) :
    (Unstarted s (before ++ [.begins t]) later →
        Deaf (run s (before ++ .begins t :: later)) ∧
          ∀ i, ¬ LiveTimer s (before ++ .begins t :: later) i) ∧
      (∀ u p e, Passing (run s before).tasks u p → taskOf? e = some u →
        Silent (run s (before ++ .begins t :: later))
          ((run s (before ++ .begins t :: later)).step e)) ∧
      (Returned (run s (before ++ .begins t :: later)) t →
        ∀ u k ph, At (run s (before ++ .begins t :: later)).tasks u k ph → k.isOwn = true →
          (run s before).nextTask ≤ u) := by
  have h := course_run s before
  have hx : (run s before).task? t = some ⟨t, .stop, .ready⟩ := hk
  have hturn : (run s before).turn (.begins t) = [.halts t] := by
    simp [turn, taskOf?, hx, taskActs, beginActs]
  have hstop : run s (before ++ [.begins t]) = (Act.halts t).perform (run s before) := by
    rw [run_concat, h.step_single hturn]
  have hall : before ++ .begins t :: later = before ++ [.begins t] ++ later := by simp
  refine ⟨fun hs => ?_, fun u p e hp he => ?_, fun hret u k ph hu ho => ?_⟩
  · have hr : (run s (before ++ [.begins t])).running = false := by rw [hstop]; rfl
    have ht : (run s (before ++ [.begins t])).timer = none := by rw [hstop]; rfl
    obtain ⟨hr₁, ht₁⟩ := still_until_start hr ht hs
    rw [← hall] at hr₁ ht₁
    exact ⟨.of_still hr₁ ht₁, fun i hi => by simp [hi.held] at ht₁⟩
  · have h₁ := course_run s (before ++ [.begins t] ++ later)
    rw [history_append, history_concat, hturn, List.append_assoc, ← hall] at h₁
    rw [run_eq_after] at hp
    have hmem : .halts t ∈ [Act.halts t] ++ actsFrom (run s (before ++ [.begins t])) later := by
      simp
    exact h₁.silenced hp hmem he
  · -- what is there of before is one of those that the stop waits for
    by_contra hlt
    have hown := fun v (hv : v ∈ (run s before).ownTasks) => ownTasks_lt h hv
    have hle := run_nextTask_le s before [.begins t]
    have hw := awaits_of_stop h hk fun hr => (h.ended_gone hr).2 _ _ hk
    rw [← run_concat] at hw
    have hlater := awaits_run (fun v hv => by have := hown v hv; omega)
      (by have := h.task_lt hk; omega) hw later
    rw [← hall] at hlater
    have h₁ := course_run s (before ++ .begins t :: later)
    rw [history_append] at h₁
    cases hlater with
    | waits _ _ hn => exact hn hret
    | gone _ hothers =>
        obtain ⟨ph₀, hk₀⟩ | ⟨hge, -⟩ := h₁.kind_before hu
        · rw [← run_eq_after] at hk₀
          exact hothers hret u (mem_ownTasks hk₀ ho) ⟨k, ph, hu⟩
        · rw [← run_eq_after] at hge
          exact hlt hge

/-- A stop is called while a pass waits for its columns and a change of the selection was told. -/
def stoppedPass : List MonitorEvent :=
  waitingPass ++ [.selectionChanged, .request .stop]

/-- The stop returns when the task for the new selection is over. -/
def stopReturns : List MonitorEvent :=
  [.cancelled 1, .joined 2]

theorem stoppedPass_silenced :
    At (run watching stoppedPass).tasks 2 .stop .ready ∧
      Deaf (run watching (stoppedPass ++ .begins 2 :: stopReturns)) ∧
      Silent (run watching (stoppedPass ++ .begins 2 :: stopReturns))
        ((run watching (stoppedPass ++ .begins 2 :: stopReturns)).step
          (.replied 0 (.failed (.failure "timeout")))) ∧
      Returned (run watching (stoppedPass ++ .begins 2 :: stopReturns)) 2 ∧
      ∀ u k ph, At (run watching (stoppedPass ++ .begins 2 :: stopReturns)).tasks u k ph →
        k.isOwn = true → (run watching stoppedPass).nextTask ≤ u := by
  have hk : At (run watching stoppedPass).tasks 2 .stop .ready := rfl
  have hp : Passing (run watching stoppedPass).tasks 0
      ⟨⟨0, .text "orders", true⟩, .null, .fields⟩ := ⟨.start, rfl⟩
  have hu : Unstarted watching (stoppedPass ++ [.begins 2]) stopReturns := by
    intro x u y hx
    have hb : MonitorEvent.begins u ∈ stopReturns := by simp [hx]
    simp [stopReturns] at hb
  have hret : Returned (run watching (stoppedPass ++ .begins 2 :: stopReturns)) 2 :=
    List.mem_of_getLast? rfl
  obtain ⟨hdeaf, hsilent, hgone⟩ := stop_effective watching stoppedPass stopReturns 2 hk
  exact ⟨hk, (hdeaf hu).1, hsilent 0 _ _ hp rfl, hret, hgone hret⟩

end Monitor

end TableAudit
