import TableAudit.Proofs.Monitor.Additions

/-!
# At most one pass is under way

A pass is under way exactly while the flag says that one is in flight. So a trigger that comes
meanwhile is dropped, whoever it comes from, and a trigger that comes at any other time begins a
pass. However a pass ends, its turn clears the flag.
-/

namespace TableAudit

namespace Monitor

variable {s : MonitorSettings} {m : Monitor} {past : List Act} {a : Act} {t : Nat}
variable {e : MonitorEvent} {acts : List Act} {p : PassRun}

/-- Some task makes a pass. -/
def UnderWay (m : Monitor) : Prop :=
  ∃ t p, Passing m.tasks t p

/-- While the flag is set, some task makes a pass. -/
theorem Course.underWay (h : Course s past m) (hf : m.inFlight = true) : UnderWay m := by
  induction h with
  | initial => simp [Monitor.initial] at hf
  | @act past m a h ha ih =>
      rw [perform_inFlight] at hf
      split at hf
      next t table view =>
        obtain ⟨k, ph, hk, -⟩ := Due.at ha.2.2.2
        exact ⟨t, _, k, hk.perform_moves rfl⟩
      · simp at hf
      next hn =>
        obtain ⟨t, p, hp⟩ := ih hf
        obtain ⟨q, hq, -⟩ | ⟨o, rfl⟩ := passing_persists ha hp
        · exact ⟨t, q, hq⟩
        · exact absurd rfl (hn t o)

theorem Course.inFlight_iff (h : Course s past m) : m.inFlight = true ↔ UnderWay m :=
  ⟨h.underWay, fun ⟨t, p, hp⟩ => h.one_pass.1 t p hp⟩

/-- Passes begin with triggers that are not dropped. -/
theorem perform_passesStarted (a : Act) (m : Monitor) :
    (a.perform m).passesStarted =
      match a with
      | .lacks _ => m.passesStarted + 1
      | .serves .. => m.passesStarted + 1
      | _ => m.passesStarted := by
  cases a <;> simp only [Act.perform, Act.change] <;> split <;> rfl

/-- A trigger is dropped while a pass is under way, and begins one otherwise. -/
theorem Course.trigger_cases (h : Course s past m) (ha : a.Admissible past m)
    (ht : a.isTrigger = true) :
    (UnderWay m ∧ ∃ t, a = .drops t) ∨
      ¬ UnderWay m ∧ (a.perform m).passesStarted = m.passesStarted + 1 := by
  rw [← h.inFlight_iff, perform_passesStarted]
  cases a with
  | drops t => exact Or.inl ⟨ha.1, t, rfl⟩
  | lacks t | serves t table view => exact Or.inr ⟨by simp [ha.1], rfl⟩
  | _ => simp [Act.isTrigger] at ht

/-- A history in which passes are made one at a time, and another can be made after each. -/
structure OneAtATime (s : MonitorSettings) (acts : List Act) : Prop where
  /-- At every moment the flag says whether a pass is under way. -/
  flag : ∀ x y, acts = x ++ y → ((after s x).inFlight = true ↔ UnderWay (after s x))
  /-- At no moment are two passes under way. -/
  sole : ∀ x y, acts = x ++ y → ∀ t p u q, Passing (after s x).tasks t p →
    Passing (after s x).tasks u q → t = u ∧ p = q
  /-- A trigger that comes while a pass is under way ends its task without a result, and does
  nothing else. -/
  dropped : ∀ x a y, acts = x ++ a :: y → a.isTrigger = true → UnderWay (after s x) →
    ∃ t, after s (x ++ [a]) =
      { after s x with
        tasks := without t (after s x).tasks
        outbox := (after s x).outbox ++ [.ended t .nothing] }
  /-- A trigger that comes while no pass is under way begins one. -/
  heeded : ∀ x a y, acts = x ++ a :: y → a.isTrigger = true → ¬ UnderWay (after s x) →
    (after s (x ++ [a])).passesStarted = (after s x).passesStarted + 1
  /-- Nothing else begins a pass. -/
  others : ∀ x a y, acts = x ++ a :: y → a.isTrigger = false →
    (after s (x ++ [a])).passesStarted = (after s x).passesStarted ∧
      (UnderWay (after s (x ++ [a])) → UnderWay (after s x))
  /-- When a pass is over its task has ended, the flag is cleared, and no pass is under way. -/
  ended : ∀ x a y t p, acts = x ++ a :: y → Passing (after s x).tasks t p →
    (∀ q, ¬ Passing (after s (x ++ [a])).tasks t q) →
      (∃ o, (after s (x ++ [a])).outbox.getLast? = some (.ended t o)) ∧
        (after s (x ++ [a])).inFlight = false ∧ ¬ UnderWay (after s (x ++ [a]))

theorem Course.oneAtATime (h : Course s past m) : OneAtATime s past where
  flag := by
    rintro x y rfl
    exact h.of_append.inFlight_iff
  sole := by
    rintro x y rfl t p u q hp hq
    exact h.of_append.passing_eq hp hq
  dropped := by
    rintro x a y rfl ht hw
    obtain ⟨h₁, ha⟩ := h.of_split
    obtain ⟨-, t, rfl⟩ | ⟨hn, -⟩ := h₁.trigger_cases ha ht
    · exact ⟨t, by rw [after_concat]; rfl⟩
    · exact absurd hw hn
  heeded := by
    rintro x a y rfl ht hw
    obtain ⟨h₁, ha⟩ := h.of_split
    obtain ⟨hn, -⟩ | ⟨-, hs⟩ := h₁.trigger_cases ha ht
    · exact absurd hn hw
    · rw [after_concat, hs]
  others := by
    rintro x a y rfl ht
    obtain ⟨h₁, ha⟩ := h.of_split
    rw [after_concat, perform_passesStarted]
    constructor
    · cases a <;> first | rfl | simp [Act.isTrigger] at ht
    · rintro ⟨t, q, hq⟩
      obtain ⟨hq, -⟩ | ⟨p, -, hp, -⟩ | ⟨table, view, rfl, -⟩ := passing_of_perform ha hq
      · exact ⟨t, q, hq⟩
      · exact ⟨t, p, hp⟩
      · simp [Act.isTrigger] at ht
  ended := by
    rintro x a y t p rfl hp hn
    obtain ⟨h₁, ha⟩ := h.of_split
    have h₂ := h₁.act a ha
    rw [after_concat] at hn ⊢
    obtain ⟨q, hq, -⟩ | ⟨o, rfl⟩ := passing_persists ha hp
    · exact absurd hq (hn q)
    · have hf : ((Act.closes t o).perform (after s x)).inFlight = false := rfl
      refine ⟨⟨o, by simp [perform_outbox, Act.effects]⟩, hf, ?_⟩
      rw [← h₂.inFlight_iff, hf]
      simp

/-- A pass is over, and with it its task. -/
structure Over (m : Monitor) (t : Nat) : Prop where
  ended : ∃ o, m.outbox.getLast? = some (.ended t o)
  cleared : m.inFlight = false
  idle : ¬ UnderWay m

/-- What a monitor does last decides what holds after a turn. -/
theorem Course.over_of_closes (h : Course s past m) {x : List Act} {o : TaskOutcome}
    (he : m.turn e = x ++ [.closes t o]) : Over (m.step e) t := by
  have h₁ := h.step e
  have hm := h₁.eq_after
  rw [he, ← List.append_assoc, after_concat] at hm
  have hf : (m.step e).inFlight = false := by
    rw [hm]
    rfl
  refine ⟨⟨o, ?_⟩, hf, ?_⟩
  · simp [hm, perform_outbox, Act.effects]
  · rw [← h₁.inFlight_iff, hf]
    simp

theorem perform_published (ha : a.furthers t = true) (m : Monitor) :
    (a.perform m).published = m.published := by
  cases a <;> first | rfl | simp [Act.furthers] at ha

/-- What takes a pass further neither calls the listener nor ends the pass. -/
theorem Course.furthered (h : Course s (past ++ acts) m) (hw : ∀ a ∈ acts, a.furthers t = true)
    (hp : Passing (after s past).tasks t p) :
    (∃ q, Passing m.tasks t q) ∧ m.published = (after s past).published := by
  constructor
  · by_contra hn
    obtain ⟨x, o, y, rfl, -⟩ := h.passing_closes hp (not_exists.mp hn)
    simpa [Act.furthers] using hw (.closes t o) (by simp)
  · induction acts using List.reverseRecOn generalizing m with
    | nil =>
        rw [List.append_nil] at h
        rw [h.eq_after]
    | append_singleton acts a ih =>
        rw [h.eq_after, ← List.append_assoc, after_concat, perform_published (hw a (by simp))]
        rw [← List.append_assoc] at h
        exact ih h.of_append fun b hb => hw b (by simp [hb])

/-- A turn of a pass leaves the pass waiting without a call of the listener, or it is over. -/
theorem Course.pass_waits_or_over (h : Course s past m) (hp : Passing m.tasks t p)
    (he : taskOf? e = some t) :
    ((∃ q, Passing (m.step e).tasks t q) ∧ (m.step e).published = m.published) ∨
      Over (m.step e) t := by
  obtain ⟨work, rest, ht, hw, hr⟩ := passTurn_of_passing hp he
  have hm := h.eq_after
  cases hr with
  | waits =>
      have h₁ := h.step e
      rw [ht, List.append_nil] at h₁
      rw [hm] at hp
      left
      simpa only [← hm] using h₁.furthered hw hp
  | closed o => exact Or.inr (h.over_of_closes ht)
  | failed message | reported rows r =>
      rw [List.append_cons] at ht
      exact Or.inr (h.over_of_closes ht)

/-- In every run one pass is made at a time. A trigger that comes meanwhile is dropped and changes
nothing, and one that comes at any other time begins a pass. A turn of a pass leaves it waiting or
ends it, and the flag is cleared with it: when the source fails, when the task is given up, and when
the listener was called, whether that failed or not. -/
theorem passes_one_at_a_time (s : MonitorSettings) (es : List MonitorEvent) :
    OneAtATime s (history s es) ∧ run s es = after s (history s es) ∧
      ∀ t p, Passing (run s es).tasks t p →
        (∀ e, taskOf? e = some t →
          ((∃ q, Passing ((run s es).step e).tasks t q) ∧
              ((run s es).step e).published = (run s es).published) ∨
            Over ((run s es).step e) t) ∧
          (∀ er, Over ((run s es).step (.replied t (.failed er))) t) ∧
            Over ((run s es).step (.cancelled t)) t := by
  have h := course_run s es
  refine ⟨h.oneAtATime, run_eq_after s es, fun t p hp => ?_⟩
  have hx : ∃ k, (run s es).task? t = some ⟨t, k, .passing p⟩ := hp
  obtain ⟨k, hx⟩ := hx
  refine ⟨fun e he => h.pass_waits_or_over hp he, fun er => ?_, ?_⟩
  · have ht : (run s es).turn (.replied t (.failed er)) = (run s es).endPassActs t p.table er := by
      simp [turn, taskOf?, hx, taskActs, replyActs]
    cases er with
    | failure message =>
        simp only [endPassActs, failPassActs] at ht
        split at ht
        · exact h.over_of_closes (x := [_]) ht
        · exact h.over_of_closes (x := []) ht
    | fault f | unfinished => exact h.over_of_closes (x := []) ht
  · refine h.over_of_closes (x := []) (o := .cancelled) ?_
    simp [turn, taskOf?, hx, taskActs, cancelActs]

/-- A pass that waits for the columns of its table. -/
def waitingPass : List MonitorEvent :=
  [.request .start, .begins 0, .replied 0 (.selection ⟨.text "orders", .null⟩),
    .replied 0 (.opened true)]

theorem waitingPass_cancelled :
    Passing (run watching waitingPass).tasks 0 ⟨⟨0, .text "orders", true⟩, .null, .fields⟩ ∧
      Over ((run watching waitingPass).step (.cancelled 0)) 0 :=
  have hp : Passing (run watching waitingPass).tasks 0
      ⟨⟨0, .text "orders", true⟩, .null, .fields⟩ := ⟨.start, rfl⟩
  ⟨hp, ((passes_one_at_a_time watching waitingPass).2.2 0 _ hp).2.2⟩

end Monitor

end TableAudit
