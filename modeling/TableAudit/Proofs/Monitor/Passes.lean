import TableAudit.Proofs.Monitor.History

/-!
# One pass at a time

A task that makes a pass is in flight, and no other task is. A task makes one pass at most: it
was served once, and it keeps its table and its view until it ends.
-/

namespace TableAudit

namespace Act

/-- The task whose pass goes on with an act, and the pass. -/
def continues? : Act → Option (Nat × PassRun)
  | .loads t p _ => some (t, p)
  | .pages t p _ _ _ => some (t, p)
  | .takes t p _ _ => some (t, p)
  | .reads t p _ _ _ => some (t, p)
  | .turns t p _ _ => some (t, p)
  | _ => none

/-- Whether a task gets its rows: it begins to read them, or takes those that are kept. -/
def getsRows (t : Nat) : Act → Bool
  | .loads u _ _ => u == t
  | .takes u _ _ _ => u == t
  | _ => false

end Act

namespace Monitor

variable {s : MonitorSettings} {m : Monitor} {past later : List Act} {a : Act} {t u : Nat}
variable {p q : PassRun}

theorem perform_nextTask (a : Act) (m : Monitor) :
    (a.perform m).nextTask = if (a.begins? m).isSome then m.nextTask + 1 else m.nextTask := by
  cases a with
  | elapses => cases h : m.running <;> simp [Act.perform, Act.change, Act.begins?, h]
  | givesUp t e => cases e <;> rfl
  | _ => rfl

theorem perform_inFlight (a : Act) (m : Monitor) :
    (a.perform m).inFlight =
      match a with
      | .serves .. => true
      | .closes .. => false
      | _ => m.inFlight := by
  cases a <;> simp only [Act.perform, Act.change] <;> split <;> rfl

@[simp] theorem not_at_initial {k : TaskKind} {ph : Phase} : ¬ At (initial s).tasks t k ph := by
  simp [At, initial]

theorem nextTask_le (a : Act) (m : Monitor) : m.nextTask ≤ (a.perform m).nextTask := by
  rw [perform_nextTask]
  split <;> omega

theorem Course.task_lt (h : Course s past m) {k : TaskKind} {ph : Phase}
    (ht : At m.tasks t k ph) : t < m.nextTask := by
  induction h generalizing k ph with
  | initial => simp at ht
  | @act past m a h ha ih =>
      have hle := nextTask_le a m
      obtain ⟨ht, -⟩ | ⟨-, ph₀, ht⟩ | ⟨hb, rfl, -⟩ := at_of_perform ht
      · exact Nat.lt_of_lt_of_le (ih ht) hle
      · exact Nat.lt_of_lt_of_le (ih ht) hle
      · simp [perform_nextTask, hb]

theorem Due.at (hd : Act.Due past m t) :
    ∃ k ph, At m.tasks t k ph ∧ ph.isPassing = false := by
  obtain ⟨k, hk, -⟩ | ⟨k, id, hk, -⟩ := hd
  · exact ⟨k, _, hk, rfl⟩
  · exact ⟨k, _, hk, rfl⟩

theorem continues_passing (ha : a.Admissible past m) (hc : a.continues? = some (t, p)) :
    Passing m.tasks t p := by
  cases a with
  | loads v r columns =>
      obtain ⟨rfl, rfl⟩ : v = t ∧ r = p := by simpa [Act.continues?] using hc
      exact ha.2.2
  | pages v r columns generation reading =>
      obtain ⟨rfl, rfl⟩ : v = t ∧ r = p := by simpa [Act.continues?] using hc
      obtain ⟨_, _, hp⟩ := ha
      exact hp
  | takes v r columns rows =>
      obtain ⟨rfl, rfl⟩ : v = t ∧ r = p := by simpa [Act.continues?] using hc
      exact ha.2.2
  | reads v r columns generation rows =>
      obtain ⟨rfl, rfl⟩ : v = t ∧ r = p := by simpa [Act.continues?] using hc
      obtain ⟨_, _, _, hp, _⟩ := ha
      exact hp
  | turns v r pass i =>
      obtain ⟨rfl, rfl⟩ : v = t ∧ r = p := by simpa [Act.continues?] using hc
      exact ha.2
  | _ => simp [Act.continues?] at hc

/-- A task comes to be in a pass by being served, or goes on with the pass that it was in. -/
theorem moves_to_passing (ha : a.Admissible past m)
    (hm : a.moves? m = some (t, .passing q)) :
    (∃ table view, a = .serves t table view ∧ q = ⟨table, view, .fields⟩) ∨
      ∃ p, a.continues? = some (t, p) ∧ q.table = p.table ∧ q.viewId = p.viewId ∧
        q.stage ≠ .fields := by
  cases a with
  | serves v table view =>
      obtain ⟨rfl, rfl⟩ : v = t ∧ _ = q := by simpa [Act.moves?] using hm
      exact Or.inl ⟨table, view, rfl, rfl⟩
  | loads v r columns =>
      obtain ⟨rfl, rfl⟩ : v = t ∧ _ = q := by simpa [Act.moves?] using hm
      exact Or.inr ⟨r, rfl, rfl, rfl, by simp⟩
  | pages v r columns generation reading =>
      obtain ⟨rfl, rfl⟩ : v = t ∧ _ = q := by simpa [Act.moves?] using hm
      exact Or.inr ⟨r, rfl, rfl, rfl, by simp⟩
  | takes v r columns rows =>
      obtain ⟨rfl, rfl⟩ : v = t ∧ _ = q := by simpa [Act.moves?] using hm
      exact Or.inr ⟨r, rfl, rfl, rfl, by simp [heldPass]⟩
  | reads v r columns generation rows =>
      obtain ⟨rfl, rfl⟩ : v = t ∧ _ = q := by simpa [Act.moves?] using hm
      exact Or.inr ⟨r, rfl, rfl, rfl, by simp [heldPass]⟩
  | turns v r pass i =>
      obtain ⟨rfl, rfl⟩ : v = t ∧ _ = q := by simpa [Act.moves?] using hm
      exact Or.inr ⟨r, rfl, rfl, rfl, by simp⟩
  | populates v ph e =>
      obtain ⟨-, rfl⟩ : v = t ∧ ph = _ := by simpa [Act.moves?] using hm
      simp [Act.Admissible, Phase.isPopulating] at ha
  | halts v =>
      simp only [Act.moves?] at hm
      split at hm <;> simp at hm
  | _ => simp [Act.moves?] at hm

/-- A task that makes a pass has its turns in the pass, or is closed. -/
theorem continues_of_actor (ha : a.Admissible past m) (hu : a.actor? = some t)
    (hp : Passing m.tasks t p) :
    a.continues? = some (t, p) ∨ (∃ table rows r, a = .publishes t table rows r) ∨
      ∃ o, a = .closes t o := by
  obtain ⟨k, hk⟩ := hp
  have hf := fits_of_admissible ha hu hk
  cases a with
  | loads v r columns | pages v r columns g reading | takes v r columns rows
  | reads v r columns g rows | turns v r pass i =>
      obtain rfl := Option.some.inj hu
      obtain rfl := Phase.passing.inj hf
      exact Or.inl rfl
  | publishes v table rows r =>
      obtain rfl := Option.some.inj hu
      exact Or.inr (Or.inl ⟨table, rows, r, rfl⟩)
  | closes v o =>
      obtain rfl := Option.some.inj hu
      exact Or.inr (Or.inr ⟨o, rfl⟩)
  | _ => simp_all [Act.actor?, Act.Fits, Act.Comes, Phase.isAttaching, Phase.isPopulating,
      Phase.isPassing]

/-- Only its own pass moves a task that makes one. -/
theorem moves_from_passing (ha : a.Admissible past m) (hp : Passing m.tasks t p) {ph : Phase}
    (hm : a.moves? m = some (t, ph)) : a.continues? = some (t, p) ∧ ∃ q, ph = .passing q := by
  have hc : a.continues? = some (t, p) := by
    obtain hc | ⟨table, rows, r, rfl⟩ | ⟨o, rfl⟩ := continues_of_actor ha (actor_of_moves hm) hp
    · exact hc
    · simp [Act.moves?] at hm
    · simp [Act.moves?] at hm
  refine ⟨hc, ?_⟩
  cases a with
  | loads | pages | takes | reads | turns =>
      simp only [Act.moves?, Option.some.injEq, Prod.mk.injEq] at hm
      exact ⟨_, hm.2.symm⟩
  | _ => simp [Act.continues?] at hc

/-- A pass after an act was under way before, or has just been served. -/
theorem passing_of_perform (ha : a.Admissible past m) (hq : Passing (a.perform m).tasks t q) :
    (Passing m.tasks t q ∧ a.ends? m ≠ some t ∧ ∀ p, a.continues? ≠ some (t, p)) ∨
      (∃ p, a.continues? = some (t, p) ∧ Passing m.tasks t p ∧ a.moves? m = some (t, .passing q) ∧
        q.table = p.table ∧ q.viewId = p.viewId ∧ q.stage ≠ .fields) ∨
      ∃ table view, a = .serves t table view ∧ q = ⟨table, view, .fields⟩ := by
  obtain ⟨k, hk⟩ := hq
  obtain ⟨hk, hn, he⟩ | ⟨hm, -⟩ | ⟨-, -, hr⟩ := at_of_perform hk
  · refine Or.inl ⟨⟨k, hk⟩, he, fun p hc => ?_⟩
    cases a <;> simp_all [Act.continues?, Act.moves?]
  · obtain hs | ⟨p, hc, hq⟩ := moves_to_passing ha hm
    · exact Or.inr (Or.inr hs)
    · exact Or.inr (Or.inl ⟨p, hc, continues_passing ha hc, hm, hq⟩)
  · simp at hr

/-- While a task makes a pass, a pass is in flight, and it is that one. -/
theorem Course.one_pass (h : Course s past m) :
    (∀ t p, Passing m.tasks t p → m.inFlight = true) ∧
      ∀ t p u q, Passing m.tasks t p → Passing m.tasks u q → t = u := by
  induction h with
  | initial => simp [Passing]
  | @act past m a h ha ih =>
      obtain ⟨hf, hu⟩ := ih
      -- a task in a pass was in one before, or the act serves it
      have hb {t : Nat} {q : PassRun} (hq : Passing (a.perform m).tasks t q) :
          (∃ p, Passing m.tasks t p ∧ a.ends? m ≠ some t) ∨
            ∃ table view, a = .serves t table view := by
        obtain ⟨hp, he, -⟩ | ⟨p, hc, hp, -⟩ | ⟨table, view, hs, -⟩ := passing_of_perform ha hq
        · exact Or.inl ⟨q, hp, he⟩
        · exact Or.inl ⟨p, hp, by cases a <;> simp_all [Act.continues?, Act.ends?]⟩
        · exact Or.inr ⟨table, view, hs⟩
      constructor
      · intro t q hq
        rw [perform_inFlight]
        obtain ⟨p, hp, he⟩ | ⟨table, view, rfl⟩ := hb hq
        · split
          next => rfl
          next v o =>
            obtain ⟨p', hp', -⟩ := ha
            simp [Act.ends?, hu v p' t p hp' hp] at he
          next => exact hf t p hp
        · rfl
      · intro t q u r hq hr
        obtain ⟨p, hp, -⟩ | ⟨table, view, ht⟩ := hb hq <;>
          obtain ⟨p', hp', -⟩ | ⟨table', view', ht'⟩ := hb hr
        · exact hu t p u p' hp hp'
        · subst ht'
          simp [ha.1] at hf
          exact absurd hp (hf t p)
        · subst ht
          simp [ha.1] at hf
          exact absurd hp' (hf u p')
        · subst ht
          simp only [Act.serves.injEq] at ht'
          exact ht'.1

theorem Course.passing_eq (h : Course s past m) (hp : Passing m.tasks t p)
    (hq : Passing m.tasks u q) : t = u ∧ p = q := by
  obtain rfl := h.one_pass.2 t p u q hp hq
  exact ⟨rfl, hp.unique hq⟩

/-- A pass was served with its table and its view. -/
theorem Course.passing_served (h : Course s past m) (hp : Passing m.tasks t p) :
    ∃ x y, past = x ++ .serves t p.table p.viewId :: y := by
  induction h generalizing p with
  | initial => simp [Passing] at hp
  | @act past m a h ha ih =>
      obtain ⟨hp, -⟩ | ⟨q, -, hq, -, ht, hv, -⟩ | ⟨table, view, rfl, rfl⟩ :=
        passing_of_perform ha hp
      · obtain ⟨x, y, rfl⟩ := ih hp
        exact ⟨x, y ++ [a], by simp⟩
      · obtain ⟨x, y, rfl⟩ := ih hq
        exact ⟨x, y ++ [a], by simp [ht, hv]⟩
      · exact ⟨past, [], rfl⟩

/-- What holds of the phase of a task after an act, and goes on to hold when the task moves, holds of
its phase ever since. -/
theorem Course.phase_since (h : Course s past m) {b : Act} {P : Phase → Prop} (hb : b ∈ past)
    (hstart : ∀ past m, Course s past m → b.Admissible past m →
      t < m.nextTask ∧ ∀ k ph, At (b.perform m).tasks t k ph → P ph)
    (hkeep : ∀ past (m : Monitor) (a : Act) k ph₀ ph, a.Admissible past m → At m.tasks t k ph₀ →
      a.moves? m = some (t, ph) → P ph₀ → P ph) :
    t < m.nextTask ∧ ∀ k ph, At m.tasks t k ph → P ph := by
  induction h with
  | initial => simp at hb
  | @act past m a h ha ih =>
      have hle := nextTask_le a m
      simp only [List.mem_append, List.mem_singleton] at hb
      obtain hb | rfl := hb
      · obtain ⟨hlt, hph⟩ := ih hb
        refine ⟨by omega, fun k ph hk => ?_⟩
        obtain ⟨hk, -⟩ | ⟨hm, ph₀, hk⟩ | ⟨-, rfl, -⟩ := at_of_perform hk
        · exact hph k ph hk
        · exact hkeep past m a k ph₀ ph ha hk hm (hph k ph₀ hk)
        · omega
      · obtain ⟨hlt, hph⟩ := hstart past m h ha
        exact ⟨Nat.lt_of_lt_of_le hlt hle, hph⟩

/-- A task that was served makes its pass until it ends. -/
theorem Course.served_passing (h : Course s past m) {table : OpenTable} {view : Value}
    (hs : .serves t table view ∈ past) :
    t < m.nextTask ∧ ∀ k ph, At m.tasks t k ph → ∃ p, ph = .passing p := by
  apply h.phase_since hs
  · intro past m h ha
    obtain ⟨k, ph₀, hk, -⟩ := Due.at ha.2.2.2
    refine ⟨h.task_lt hk, fun k' ph hk' => ?_⟩
    have hm : At ((Act.serves t table view).perform m).tasks t k
        (.passing ⟨table, view, .fields⟩) := hk.perform_moves rfl
    exact ⟨_, (hk'.unique hm).2⟩
  · rintro past m a k ph₀ ph ha hk hm ⟨p, rfl⟩
    exact (moves_from_passing ha ⟨k, hk⟩ hm).2

/-- A task that has come to its trigger was not served before. -/
theorem Course.unserved_of_due (h : Course s past m) (hd : Act.Due past m t)
    (table : OpenTable) (view : Value) : .serves t table view ∉ past := by
  intro hs
  obtain ⟨k, ph, hk, hf⟩ := Due.at hd
  obtain ⟨p, rfl⟩ := (h.served_passing hs).2 k ph hk
  simp [Phase.isPassing] at hf

/-- A pass that is under way was so ever since it was served. -/
theorem Course.passing_since (h : Course s (past ++ later) m) {table : OpenTable} {view : Value}
    (hs : .serves t table view ∈ past) (hp : Passing m.tasks t p) :
    ∃ q, Passing (after s past).tasks t q ∧ q.table = p.table := by
  induction later using List.reverseRecOn generalizing m p with
  | nil =>
      rw [List.append_nil] at h
      rw [← h.eq_after]
      exact ⟨p, hp, rfl⟩
  | append_singleton later a ih =>
      rw [h.eq_after, ← List.append_assoc, after_concat] at hp
      rw [← List.append_assoc] at h
      obtain ⟨h₁, ha⟩ := h.of_concat
      obtain ⟨hp, -⟩ | ⟨q, -, hq, -, ht, -⟩ | ⟨table', view', rfl, -⟩ := passing_of_perform ha hp
      · exact ih h₁ hp
      · rw [ht]
        exact ih h₁ hq
      · exact absurd (List.mem_append_left _ hs) (h₁.unserved_of_due ha.2.2.2 _ _)

/-- A pass goes on until it is closed. -/
theorem passing_persists (ha : a.Admissible past m) (hp : Passing m.tasks t p) :
    (∃ q, Passing (a.perform m).tasks t q ∧ q.table = p.table) ∨ ∃ o, a = .closes t o := by
  by_cases hm : ∃ ph, a.moves? m = some (t, ph)
  · obtain ⟨ph, hm⟩ := hm
    obtain ⟨hc, q, rfl⟩ := moves_from_passing ha hp hm
    obtain ⟨table, view, rfl, -⟩ | ⟨r, hr, ht, -⟩ := moves_to_passing ha hm
    · simp [Act.continues?] at hc
    · obtain rfl : p = r := by simpa [hc] using hr
      obtain ⟨k, hk⟩ := hp
      exact Or.inl ⟨q, ⟨k, hk.perform_moves hm⟩, ht⟩
  · rw [not_exists] at hm
    by_cases he : a.ends? m = some t
    · obtain hc | ⟨table, rows, r, rfl⟩ | hc := continues_of_actor ha (actor_of_ends he) hp
      · cases a <;> simp_all [Act.continues?, Act.ends?]
      · simp [Act.ends?] at he
      · exact Or.inr hc
    · obtain ⟨k, hk⟩ := hp
      exact Or.inl ⟨p, ⟨k, hk.perform hm he⟩, rfl⟩

/-- A pass that is no longer under way was closed. -/
theorem Course.passing_closes (h : Course s (past ++ later) m)
    (hp : Passing (after s past).tasks t p) (hm : ∀ q, ¬ Passing m.tasks t q) :
    ∃ x o y, later = x ++ .closes t o :: y ∧
      ∃ q, Passing (after s (past ++ x)).tasks t q ∧ q.table = p.table := by
  induction later generalizing past p with
  | nil =>
      rw [List.append_nil] at h
      rw [← h.eq_after] at hp
      exact absurd hp (hm p)
  | cons a later ih =>
      obtain ⟨-, ha⟩ := h.of_split
      obtain ⟨q, hq, ht⟩ | ⟨o, rfl⟩ := passing_persists ha hp
      · rw [List.append_cons] at h
        rw [← after_concat] at hq
        obtain ⟨x, o, y, rfl, r, hr, hrt⟩ := ih h hq
        exact ⟨a :: x, o, y, rfl, r, by rwa [List.append_cons], hrt.trans ht⟩
      · exact ⟨[], o, later, rfl, p, by rwa [List.append_nil], rfl⟩

end Monitor

/-! ### From a change to a trigger

A change starts the timer. While the monitor runs and keeps its table, a timer that was started
leads to a trigger: it may be started afresh, it runs down, and the task that it begins comes to
its trigger unless it is given up. Whether the trigger is heeded is another matter.
-/

namespace Act

/-- Whether a trigger comes, to whatever end. -/
def isTrigger : Act → Bool
  | .drops _ => true
  | .lacks _ => true
  | .serves .. => true
  | _ => false

end Act

namespace Monitor

variable {s : MonitorSettings} {m : Monitor} {past later : List Act} {a : Act} {t : Nat}

theorem perform_running (a : Act) (m : Monitor) :
    (a.perform m).running =
      match a with
      | .starts _ => true
      | .halts _ => false
      | _ => m.running := by
  cases a <;> simp only [Act.perform, Act.change] <;> split <;> rfl

/-- While the monitor runs, only an elapsed timer, a stop and a switch leave it without one. -/
theorem perform_timer (a : Act) (m : Monitor) (hr : m.running = true) (ht : m.timer ≠ none)
    (he : a ≠ .elapses) (hh : ∀ t, a ≠ .halts t) (hs : ∀ t, a ≠ .switches t) :
    (a.perform m).timer ≠ none := by
  cases a with
  | elapses => exact absurd rfl he
  | halts t => exact absurd rfl (hh t)
  | switches t => exact absurd rfl (hs t)
  | givesUp t e => cases e <;> exact ht
  | changes | arms => simp [Act.perform, Act.change, armed, hr]
  | lacks t | closes t o =>
      simp only [Act.perform, Act.change, armed, hr, if_true]
      split
      · simp
      · exact ht
  | _ => exact ht

/-- A task that the timer began waits for its trigger, unless it is given up. -/
theorem elapsed_waits (ha : a.Admissible past m) (hk : At m.tasks t .elapsed .ready) :
    At (a.perform m).tasks t .elapsed .ready ∨ a.isTrigger = true ∨ a = .abandons t := by
  by_cases hu : a.actor? = some t
  · have hf := fits_of_admissible ha hu hk
    right
    cases a <;> simp_all [Act.actor?, Act.Fits, Act.isTrigger, Phase.isAttaching,
      Phase.isPopulating, Phase.isPassing]
  · left
    exact hk.perform (fun ph hm => hu (actor_of_moves hm)) fun he => hu (actor_of_ends he)

/-- A trigger is to come: the timer runs, or a task that it began has not had its turn. -/
def Pending (m : Monitor) : Prop :=
  m.timer ≠ none ∨ ∃ t, At m.tasks t .elapsed .ready

theorem Course.pending_act (h : Course s past m) (ha : a.Admissible past m)
    (hr : m.running = true) (hh : ∀ t, a ≠ .halts t) (hs : ∀ t, a ≠ .switches t)
    (hp : Pending m) :
    Pending (a.perform m) ∨ a.isTrigger = true ∨ ∃ t, a = .abandons t := by
  obtain ht | ⟨t, hk⟩ := hp
  · by_cases he : a = .elapses
    · subst he
      refine Or.inl (Or.inr ⟨m.nextTask, ?_⟩)
      have hn : m.tasks.find? (·.number = m.nextTask) = none := by
        rw [Option.eq_none_iff_forall_ne_some]
        intro x hx
        exact absurd (h.task_lt (At.of_task? hx)) (by omega)
      rw [perform_tasks]
      simp only [Act.moves?, Act.ends?, Act.begins?, hr, if_true]
      exact at_append.mpr (Or.inr ⟨hn, rfl, rfl, rfl⟩)
    · exact Or.inl (Or.inl (perform_timer a m hr ht he hh hs))
  · exact (elapsed_waits ha hk).imp (fun hk => Or.inr ⟨t, hk⟩) (Or.imp_right fun he => ⟨t, he⟩)

/-- While the monitor neither stops nor switches, what is pending comes to a trigger. -/
theorem Course.pending_until (h : Course s (past ++ later) m)
    (hr : (after s past).running = true) (hp : Pending (after s past))
    (hh : ∀ t, .halts t ∉ later) (hs : ∀ t, .switches t ∉ later) :
    Pending m ∨ (∃ a ∈ later, a.isTrigger = true) ∨ ∃ t, .abandons t ∈ later := by
  induction later generalizing past with
  | nil =>
      rw [List.append_nil] at h
      rw [← h.eq_after] at hp
      exact Or.inl hp
  | cons a later ih =>
      simp only [List.mem_cons, not_or] at hh hs
      obtain ⟨h₁, ha⟩ := h.of_split
      have hh₁ (t : Nat) : a ≠ .halts t := fun he => (hh t).1 he.symm
      have hs₁ (t : Nat) : a ≠ .switches t := fun he => (hs t).1 he.symm
      obtain hp | ht | ⟨t, ht⟩ := h₁.pending_act ha hr hh₁ hs₁ hp
      · have hr₁ : (after s (past ++ [a])).running = true := by
          rw [after_concat, perform_running]
          split
          · rfl
          next t => exact absurd rfl (hh₁ t)
          · exact hr
        rw [List.append_cons] at h
        obtain hm | ⟨b, hb, hbt⟩ | ⟨t, ht⟩ :=
          ih h hr₁ (by rwa [after_concat]) (fun t => (hh t).2) fun t => (hs t).2
        · exact Or.inl hm
        · exact Or.inr (Or.inl ⟨b, List.mem_cons_of_mem a hb, hbt⟩)
        · exact Or.inr (Or.inr ⟨t, List.mem_cons_of_mem a ht⟩)
      · exact Or.inr (Or.inl ⟨a, List.mem_cons_self, ht⟩)
      · exact Or.inr (Or.inr ⟨t, by simp [ht]⟩)

end Monitor

end TableAudit
