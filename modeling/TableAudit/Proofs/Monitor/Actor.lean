import TableAudit.Proofs.Monitor.Additions

/-!
# Whose turn it is

An act that belongs to a task is done when something happens to that task, and to no other. So a
task keeps its phase while nothing happens to it, and it does not end. What waits for its first turn
or for other tasks has few turns.
-/

namespace TableAudit

namespace Monitor

variable {s : MonitorSettings} {m : Monitor} {past later acts : List Act} {a : Act} {t u : Nat}
variable {e : MonitorEvent} {k : TaskKind} {ph : Phase} {o : TaskOutcome} {others : List Nat}

/-- No act of a list is one of another task. -/
def Owned (t : Nat) (acts : List Act) : Prop :=
  ∀ a ∈ acts, ∀ u, a.actor? = some u → u = t

theorem owned_nil : Owned t [] := by
  simp [Owned]

theorem Owned.cons (ha : a.actor? = some t ∨ a.actor? = none) (h : Owned t acts) :
    Owned t (a :: acts) := by
  intro b hb u hu
  obtain rfl | hb := List.mem_cons.mp hb
  · obtain ha | ha := ha
    · exact Option.some.inj (hu.symm.trans ha)
    · simp [ha] at hu
  · exact h b hb u hu

theorem Owned.single (ha : a.actor? = some t) : Owned t [a] :=
  owned_nil.cons (Or.inl ha)

theorem PassTurn.owned {table : OpenTable} (h : PassTurn m t table acts) : Owned t acts := by
  intro a ha u hu
  obtain hw | ⟨o, rfl⟩ | ⟨-, ⟨message, rfl⟩ | ⟨rows, r, rfl⟩⟩ := h.cases ha
  · cases a <;> simp_all [Act.furthers, Act.actor?]
  · exact (Option.some.inj hu).symm
  · simp [Act.actor?] at hu
  · exact (Option.some.inj hu).symm

theorem trigger_owned (t : Nat) (m : Monitor) : Owned t (m.triggerActs t) := by
  simp only [triggerActs]
  split
  · exact .single rfl
  · split
    · exact .single rfl
    · exact .single rfl

theorem afterAttach_owned (t : Nat) (m : Monitor) : Owned t (m.afterAttachActs t) := by
  simp only [afterAttachActs]
  split
  · exact .single rfl
  · exact trigger_owned t m

theorem continue_owned (t : Nat) (table : OpenTable) (n : Defaults.Next) :
    Owned t (continueActs t table n) := by
  simp only [continueActs]
  split
  · exact ((Owned.single rfl).cons (Or.inr rfl)).cons (Or.inr rfl)
  · exact .single rfl
  · exact .single rfl
  · split
    · exact .single rfl
    · exact .single rfl

theorem population_owned (t : Nat) (ph : Phase) (r : TableReply) (m : Monitor) :
    Owned t (m.populationActs t ph r) := by
  simp only [populationActs]
  split
  · split
    · exact .single rfl
    · exact continue_owned t _ _
  · exact ((Owned.single rfl).cons (Or.inr rfl)).cons (Or.inr rfl)
  · exact .single rfl
  · exact continue_owned t _ _
  · exact .single rfl

theorem begin_owned (t : Nat) (k : TaskKind) (m : Monitor) : Owned t (m.beginActs t k) := by
  cases k with
  | start =>
      simp only [beginActs]
      split
      · exact .single rfl
      · exact .single rfl
  | stop | switch => exact .single rfl
  | trigger | elapsed => exact trigger_owned t m
  | added ids =>
      have hend : Owned t [Act.arms, .ends t .nothing] := (Owned.single rfl).cons (Or.inr rfl)
      simp only [beginActs, populateActs]
      split
      · exact hend
      · split
        · exact hend
        · exact .single rfl

theorem reply_owned (t : Nat) (ph : Phase) (r : SourceReply) (m : Monitor) :
    Owned t (m.replyActs t ph r) := by
  simp only [replyActs]
  split
  · refine Owned.cons (Or.inl rfl) ?_
    split
    · exact owned_nil
    · exact afterAttach_owned t _
  · exact .single rfl
  · exact (afterAttach_owned t _).cons (Or.inl rfl)
  · exact .single rfl
  · exact (pass_turn t _ _ m).owned
  · exact (endPass_turn t _ _ m).passTurn.owned
  · exact population_owned t _ _ m
  · exact population_owned t _ _ m
  · exact population_owned t _ _ m
  · exact population_owned t _ _ m
  · exact owned_nil

/-- A task has its turn when something happens to it. -/
theorem turn_owned (he : taskOf? e = some t) : Owned t (m.turn e) := by
  simp only [turn, he]
  cases hx : m.task? t with
  | none => exact owned_nil
  | some x =>
      simp only [taskActs]
      split
      · obtain rfl := Option.some.inj he
        exact begin_owned _ _ m
      · obtain rfl := Option.some.inj he
        exact reply_owned _ _ _ m
      · obtain rfl := Option.some.inj he
        exact continue_owned _ _ _
      · obtain rfl := Option.some.inj he
        exact .single rfl
      · obtain rfl := Option.some.inj he
        exact (passOver_turn _ _ _ _ m).passTurn.owned
      · obtain rfl := Option.some.inj he
        split
        · exact owned_nil
        · exact .single rfl
      · obtain rfl := Option.some.inj he
        simp only [cancelActs]
        split
        · exact .single rfl
        · exact .single rfl
      · exact owned_nil

/-- An act of a task is done when something happens to it. -/
theorem actor_of_turn (ha : a ∈ m.turn e) (hu : a.actor? = some u) : taskOf? e = some u := by
  cases he : taskOf? e with
  | some t =>
      obtain rfl := turn_owned he a ha u hu
      rfl
  | none =>
      have hn : a.actor? = none := by
        simp only [turn, he] at ha
        cases e with
        | request k | invalidated =>
            obtain rfl := List.mem_singleton.mp ha
            rfl
        | recordsAdded ids =>
            simp only at ha
            split at ha
            · simp only [List.mem_cons, List.not_mem_nil, or_false] at ha
              obtain rfl | rfl := ha <;> rfl
            · simp at ha
        | recordsChanged | selectionChanged | elapsed i =>
            simp only at ha
            split at ha
            · obtain rfl := List.mem_singleton.mp ha
              rfl
            · simp at ha
        | _ => simp [taskOf?] at he
      simp [hn] at hu

/-- A task that is not there has no turns. -/
theorem actor_alive (ha : a ∈ m.turn e) (hu : a.actor? = some u) : ∃ k ph, At m.tasks u k ph := by
  have he := actor_of_turn ha hu
  cases hx : m.task? u with
  | none => simp [turn, he, hx] at ha
  | some x => exact ⟨x.kind, x.phase, At.of_task? hx⟩

/-- A task that waits for its first turn has no other, unless it is given up. -/
theorem turn_of_ready (hk : At m.tasks t k .ready) (he : taskOf? e = some t)
    (ha : a ∈ m.turn e) : e = .begins t ∨ e = .cancelled t ∧ a = .abandons t := by
  have hx : m.task? t = some ⟨t, k, .ready⟩ := hk
  simp only [turn, he, hx] at ha
  cases e with
  | begins u =>
      obtain rfl := Option.some.inj he
      exact Or.inl rfl
  | cancelled u =>
      obtain rfl := Option.some.inj he
      exact Or.inr ⟨rfl, List.mem_singleton.mp ha⟩
  | replied u r => cases r <;> simp [taskActs, replyActs] at ha
  | _ => simp [taskActs] at ha

/-- A task that waits for others to end does so when they have, or is given up. -/
theorem turn_of_stopping (hk : At m.tasks t k (.stopping others)) (he : taskOf? e = some t) :
    m.turn e = [] ∨ m.turn e = [.abandons t] ∨
      m.turn e = [.ends t .nothing] ∧ ∀ u ∈ others, ∀ k ph, ¬ At m.tasks u k ph := by
  have hx : m.task? t = some ⟨t, k, .stopping others⟩ := hk
  simp only [turn, he, hx]
  cases e with
  | joined u =>
      obtain rfl := Option.some.inj he
      simp only [taskActs]
      split
      next => exact Or.inl rfl
      next hn =>
        refine Or.inr (Or.inr ⟨rfl, fun v hv k' ph' hk' => hn ?_⟩)
        have hv' : m.task? v = some ⟨v, k', ph'⟩ := hk'
        exact List.any_eq_true.mpr ⟨v, hv, by simp [hv']⟩
  | cancelled u =>
      obtain rfl := Option.some.inj he
      exact Or.inr (Or.inl rfl)
  | replied u r => cases r <;> exact Or.inl rfl
  | _ => exact Or.inl rfl

/-! ### Tasks to which nothing happens -/

theorem Course.step_single (h : Course s past m) (ht : m.turn e = [a]) :
    m.step e = a.perform m := by
  have h₁ := h.step e
  rw [ht] at h₁
  rw [h₁.eq_after, after_concat, ← h.eq_after]

/-- A task keeps its phase while nothing is done in its turn. -/
theorem Course.untouched (h : Course s (past ++ acts) m) (hn : ∀ a ∈ acts, a.actor? ≠ some t)
    (hk : At (after s past).tasks t k ph) : At m.tasks t k ph := by
  induction acts using List.reverseRecOn generalizing m with
  | nil =>
      rw [List.append_nil] at h
      rwa [h.eq_after]
  | append_singleton acts a ih =>
      rw [← List.append_assoc] at h
      have hk₁ := ih h.of_append fun b hb => hn b (List.mem_append_left _ hb)
      have ha := hn a (by simp)
      rw [h.eq_after, after_concat]
      exact hk₁.perform (fun ph hm => ha (actor_of_moves hm)) fun he => ha (actor_of_ends he)

theorem ended_of_effects (ha : a.Admissible past m) (he : .ended t o ∈ a.effects m) :
    a.ends? m = some t := by
  have harm : .ended t o ∉ m.arming := by
    simp only [arming, disarming]
    split <;> simp
  have hshow (d : Display) : .ended t o ∉ m.showing d := by
    simp only [showing]
    split <;> simp
  cases a with
  | changes | arms => exact absurd he harm
  | shows | publishes => exact absurd he (hshow _)
  | elapses => cases hr : m.running <;> simp [Act.effects, hr] at he
  | starts v => cases hw : m.settings.watchesSelection <;> simp [Act.effects, hw] at he
  | halts v =>
      cases ho : m.ownTasks.isEmpty
      · simp [Act.effects, ho, disarming, detaching] at he
      · obtain ⟨rfl, -⟩ : t = v ∧ o = .nothing := by
          simpa [Act.effects, ho, disarming, detaching] using he
        exact if_pos ho
  | switches v => simp [Act.effects, disarming, detaching] at he
  | selects v sel => cases hs : sel.tableId.isTruthy <;> simp [Act.effects, hs] at he
  | attaches v table =>
      cases ho : table.observable <;> simp [Act.effects, ho] at he
  | givesUp v er =>
      cases er <;> simp [Act.effects, hshow] at he <;> simp [Act.ends?, he.1]
  | lacks v =>
      cases hs : m.switchPending <;> simp [Act.effects, hs, hshow, harm] at he <;>
        simp [Act.ends?, he.1]
  | closes v o' =>
      cases hs : m.switchPending <;> simp [Act.effects, hs, harm] at he <;>
        simp [Act.ends?, he.1]
  | populates v ph ef =>
      obtain ⟨-, ⟨c, rfl⟩ | ⟨w, rfl⟩, -⟩ := ha <;> simp [Act.effects] at he
  | postpones v | drops v | ends v o' | abandons v =>
      simp [Act.effects] at he
      simp [Act.ends?, he.1]
  | _ => simp [Act.effects] at he

/-- A task does not end while nothing is done in its turn. -/
theorem Course.ended_before (h : Course s (past ++ acts) m) (hn : ∀ a ∈ acts, a.actor? ≠ some t)
    (he : .ended t o ∈ m.outbox) : .ended t o ∈ (after s past).outbox := by
  induction acts using List.reverseRecOn generalizing m with
  | nil =>
      rw [List.append_nil] at h
      rwa [h.eq_after] at he
  | append_singleton acts a ih =>
      rw [← List.append_assoc] at h
      obtain ⟨h₁, ha⟩ := h.of_concat
      rw [h.eq_after, after_concat, perform_outbox, List.mem_append] at he
      obtain he | he := he
      · exact ih h₁ (fun b hb => hn b (List.mem_append_left _ hb)) he
      · exact absurd (actor_of_ends (ended_of_effects ha he)) (hn a (by simp))

/-- A task that has ended was there, and is no more. -/
theorem Course.ended_gone (h : Course s past m) (he : .ended t o ∈ m.outbox) :
    t < m.nextTask ∧ ∀ k ph, ¬ At m.tasks t k ph := by
  induction h with
  | initial => simp [Monitor.initial] at he
  | act a h ha ih =>
      next past m =>
      have hle := nextTask_le a m
      rw [perform_outbox, List.mem_append] at he
      obtain he | he := he
      · obtain ⟨hlt, hn⟩ := ih he
        refine ⟨by omega, fun k ph hk => ?_⟩
        obtain ⟨hk, -⟩ | ⟨-, ph₀, hk⟩ | ⟨-, rfl, -⟩ := at_of_perform hk
        · exact hn k ph hk
        · exact hn k ph₀ hk
        · exact Nat.lt_irrefl _ hlt
      · have hends := ended_of_effects ha he
        obtain ⟨k₀, ph₀, hk₀, -⟩ := exists_fitting ha (actor_of_ends hends)
        have hlt := h.task_lt hk₀
        refine ⟨by omega, fun k ph hk => ?_⟩
        obtain ⟨-, -, hn⟩ | ⟨hm, -⟩ | ⟨-, rfl, -⟩ := at_of_perform hk
        · exact hn hends
        · simp [moves?_of_ends hends] at hm
        · exact Nat.lt_irrefl _ hlt

/-- A task that is gone does not come back. -/
theorem Course.gone (h : Course s (past ++ later) m) (ht : t < (after s past).nextTask)
    (hn : ∀ k ph, ¬ At (after s past).tasks t k ph) : ¬ At m.tasks t k ph := by
  intro hk
  obtain ⟨ph₀, hk₀⟩ | ⟨hle, -⟩ := h.kind_before hk
  · exact hn k ph₀ hk₀
  · omega

end Monitor

end TableAudit
