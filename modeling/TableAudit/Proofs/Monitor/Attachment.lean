import TableAudit.Proofs.Monitor.Origin
import TableAudit.Proofs.Monitor.Passes

/-!
# The stored selection

A selection is stored when the source replies with it, and only then. A source that changes its
selection tells the monitor, so while the monitor runs the stored selection is that of the source
or a task is about to ask for it, provided that the source replies with what it has at the time.
-/

namespace TableAudit

namespace Act

/-- Whether a task fails to attach, or is given up. -/
def fails : Act → Bool
  | .givesUp _ _ => true
  | .abandons _ => true
  | _ => false

end Act

namespace Monitor

variable {s : MonitorSettings} {m : Monitor} {past acts : List Act} {a : Act} {t u : Nat}
variable {sel : Selection}

/-- What happens to a monitor and its source. -/
inductive SourceStep
  /-- The selection changes, and the monitor is told that it did. -/
  | selects (s : Selection)
  | happens (e : MonitorEvent)

namespace SourceStep

/-- What happens to the monitor. -/
def event : SourceStep → MonitorEvent
  | selects _ => .selectionChanged
  | happens e => e

/-- The selection of the source after a step. -/
def selection (before : Selection) : SourceStep → Selection
  | selects s => s
  | happens _ => before

end SourceStep

/-- The selection of the source after some steps. -/
def latest (first : Selection) (steps : List SourceStep) : Selection :=
  steps.foldl SourceStep.selection first

/-- Whenever a task is told a selection, it is the one that the source has then. -/
def Current (first : Selection) (steps : List SourceStep) : Prop :=
  ∀ x t sel y, steps = x ++ .happens (.replied t (.selection sel)) :: y → sel = latest first x

theorem current_nil (first : Selection) : Current first [] := by
  intro x t sel y h
  simp at h

theorem current_cons {first : Selection} {st : SourceStep} {steps : List SourceStep} :
    Current first (st :: steps) ↔
      (∀ t sel, st = .happens (.replied t (.selection sel)) → sel = first) ∧
        Current (st.selection first) steps := by
  constructor
  · intro h
    refine ⟨fun t sel hst => h [] t sel steps (by rw [hst]; rfl), ?_⟩
    rintro x t sel y rfl
    exact h (st :: x) t sel y rfl
  · rintro ⟨h, hs⟩ x t sel y hx
    cases x with
    | nil =>
        obtain ⟨rfl, -⟩ := List.cons.inj hx
        exact h t sel rfl
    | cons st' x =>
        obtain ⟨rfl, rfl⟩ := List.cons.inj hx
        exact hs x t sel y rfl

/-- A task is about to ask for the selection, or waits for the reply. -/
def Asking (m : Monitor) : Prop :=
  ∃ t k ph, At m.tasks t k ph ∧ (ph = .selecting ∨ ph = .ready ∧ k = .switch)

/-- While the monitor runs, a selection is stored or will be asked for. -/
def Told (sel : Selection) (m : Monitor) : Prop :=
  m.running = true → m.selection = sel ∨ Asking m

theorem asking_act (ha : a.Admissible past m) (hf : a.fails = false) (hm : Asking m) :
    Asking (a.perform m) ∨ ∃ t x, a = .selects t x := by
  obtain ⟨t, k, ph, hk, hp⟩ := hm
  by_cases hu : a.actor? = some t
  · have hfit := fits_of_admissible ha hu hk
    cases a with
    | selects v x => exact Or.inr ⟨v, x, rfl⟩
    | switches v =>
        obtain rfl := Option.some.inj hu
        exact Or.inl ⟨v, k, _, hk.perform_moves rfl, Or.inl rfl⟩
    | givesUp | abandons => simp [Act.fails] at hf
    | _ =>
        simp only [Act.Fits, Act.Comes] at hfit
        obtain rfl | ⟨rfl, rfl⟩ := hp <;>
          simp_all [Act.actor?, Phase.isPassing, Phase.isPopulating]
  · exact Or.inl ⟨t, k, ph, hk.perform (fun ph hm => hu (actor_of_moves hm))
      fun he => hu (actor_of_ends he), hp⟩

theorem Told.act (h : Told sel m) (ha : a.Admissible past m) (hf : a.fails = false)
    (hs : ∀ t x, a = .selects t x → x = sel) : Told sel (a.perform m) := by
  intro hr
  rw [perform_running] at hr
  rw [perform_selection]
  have hkeep (hr : m.running = true) (hn : ∀ t x, a ≠ .selects t x) :
      (a.selection?).getD m.selection = sel ∨ Asking (a.perform m) := by
    obtain hsel | hask := h hr
    · left
      cases a <;> simp_all [Act.selection?]
    · obtain hask | ⟨t, x, rfl⟩ := asking_act ha hf hask
      · exact Or.inr hask
      · exact absurd rfl (hn t x)
  cases a with
  | starts v => exact Or.inr ⟨v, _, _, ha.2.perform_moves rfl, Or.inl rfl⟩
  | halts v => simp at hr
  | selects v x => exact Or.inl (hs v x rfl)
  | _ => exact hkeep hr (by simp)

theorem Course.told (h : Course s (past ++ acts) m) (ht : Told sel (after s past))
    (hf : ∀ a ∈ acts, a.fails = false) (hs : ∀ t x, .selects t x ∈ acts → x = sel) :
    Told sel m := by
  induction acts generalizing past with
  | nil =>
      rw [List.append_nil] at h
      rwa [h.eq_after]
  | cons a acts ih =>
      obtain ⟨-, ha⟩ := h.of_split
      rw [List.append_cons] at h
      refine ih h ?_ (fun b hb => hf b (List.mem_cons_of_mem a hb))
        fun t x hx => hs t x (List.mem_cons_of_mem a hx)
      rw [after_concat]
      exact ht.act ha (hf a List.mem_cons_self) fun t x hx => hs t x (by simp [hx])

/-- After a change of the selection a running monitor is about to ask for it. -/
theorem Told.selectionChanged (h : Course s past m) (sel : Selection) :
    Told sel (m.step .selectionChanged) := by
  intro hr
  right
  have hm : m.running = true := by
    by_contra hm
    simp only [step, taskOf?, whileRunning, if_neg hm] at hr
    exact hm hr
  have hn : m.tasks.find? (·.number = m.nextTask) = none := by
    rw [Option.eq_none_iff_forall_ne_some]
    intro x hx
    exact absurd (h.task_lt (At.of_task? hx)) (by omega)
  refine ⟨m.nextTask, .switch, .ready, ?_, Or.inr ⟨rfl, rfl⟩⟩
  simp only [step, taskOf?, whileRunning, if_pos hm, spawn, emit]
  exact at_append.mpr (Or.inr ⟨hn, rfl, rfl, rfl⟩)

/-- While the monitor runs and nothing fails, the selection of a source that replies with what it
has is stored or will be asked for. -/
theorem told_latest (s : MonitorSettings) (first : Selection) (steps : List SourceStep)
    (hf : ∀ a ∈ history s (steps.map SourceStep.event), a.fails = false)
    (hc : Current first steps) :
    Told (latest first steps) (run s (steps.map SourceStep.event)) := by
  induction steps using List.reverseRecOn with
  | nil => exact fun hr => by simp [run, initial] at hr
  | append_singleton steps st ih =>
      rw [List.map_append, List.map_singleton, history_concat] at hf
      have hc' : Current first steps := by
        rintro x t sel y rfl
        exact hc x t sel (y ++ [st]) (by simp)
      have ht := ih (fun a ha => hf a (List.mem_append_left _ ha)) hc'
      have h := course_run s (steps.map SourceStep.event)
      have hrun : run s ((steps ++ [st]).map SourceStep.event) =
          (run s (steps.map SourceStep.event)).step st.event := by
        simp [run]
      rw [hrun]
      simp only [latest, List.foldl_append, List.foldl_cons, List.foldl_nil]
      cases st with
      | selects x => exact Told.selectionChanged h x
      | happens e =>
          rw [run_eq_after] at ht
          refine (h.step e).told ht (fun a ha => hf a (List.mem_append_right _ ha)) ?_
          intro t x hx
          obtain rfl := told_of_turn hx
          exact hc steps t x [] rfl

end Monitor

end TableAudit

/-!
## Attachment and selection

Every change of the selection begins a task that writes the selection first and the table later.
Where such tasks overlap, what is stored in the end may come from two of them: the selection from
the one that was told last, the table from the one whose attaching was complete last.
-/

namespace TableAudit

namespace Phase

/-- How far a task has come: its phase is never an earlier one again. -/
def rank : Phase → Nat
  | ready => 0
  | selecting => 1
  | opening _ => 2
  | _ => 3

end Phase

namespace Act

/-- What an act makes of the table, if anything: the task whose attaching is complete, or none if
the table is let go of. -/
def attachment? : Act → Option (Option Nat)
  | .halts _ => some none
  | .switches _ => some none
  | a => a.completer?.map some

end Act

namespace Monitor

variable {s : MonitorSettings} {m : Monitor} {past : List Act} {a : Act} {t u : Nat}
variable {T : OpenTable} {sel sel' : Selection}

theorem rank_le (ha : a.Admissible past m) {k : TaskKind} {ph ph₀ : Phase}
    (hk : At m.tasks t k ph₀) (hm : a.moves? m = some (t, ph)) : ph₀.rank ≤ ph.rank := by
  have hf := fits_of_admissible ha (actor_of_moves hm) hk
  cases a with
  | starts v | switches v => simp [hf.2, Phase.rank]
  | halts v => simp [hf.2, Phase.rank]
  | selects v x =>
      simp only [Act.moves?, Option.some.injEq, Prod.mk.injEq] at hm
      simp [← hm.2, show ph₀ = .selecting from hf, Phase.rank]
  | populates v ph' e =>
      obtain ⟨hp, -⟩ := ha
      simp only [Act.moves?, Option.some.injEq, Prod.mk.injEq] at hm
      obtain ⟨-, rfl⟩ := hm
      cases ph' <;> cases ph₀ <;> simp_all [Phase.rank, Phase.isPopulating]
  | serves | loads | pages | takes | reads | turns =>
      simp only [Act.moves?, Option.some.injEq, Prod.mk.injEq] at hm
      rw [← hm.2]
      cases ph₀ <;> simp [Phase.rank]
  | _ => simp [Act.moves?] at hm

/-- A task that was told a selection has left that behind. -/
theorem Course.selected_rank (h : Course s past m) (hs : .selects t sel ∈ past) :
    t < m.nextTask ∧ ∀ k ph, At m.tasks t k ph → 2 ≤ ph.rank := by
  apply h.phase_since hs
  · intro past m h ha
    obtain ⟨k, hk⟩ := ha
    refine ⟨h.task_lt hk, fun k' ph hk' => ?_⟩
    have hm := hk.perform_moves (a := .selects t sel) rfl
    rw [(hk'.unique hm).2]
    simp [Phase.rank]
  · intro past m a k ph₀ ph ha hk hm hrank
    exact Nat.le_trans hrank (rank_le ha hk hm)

/-- A task is told one selection. -/
theorem Course.selects_unique (h : Course s past m) (hs : .selects t sel ∈ past)
    (hs' : .selects t sel' ∈ past) : sel = sel' := by
  induction h with
  | initial => simp at hs
  | @act past m a h ha ih =>
      have hno {x y : Selection} (hx : .selects t x ∈ past) (hy : a = .selects t y) : False := by
        subst hy
        obtain ⟨k, hk⟩ := ha
        have := (h.selected_rank hx).2 k _ hk
        simp [Phase.rank] at this
      simp only [List.mem_append, List.mem_singleton] at hs hs'
      obtain hs | hs := hs <;> obtain hs' | hs' := hs'
      · exact ih hs hs'
      · exact (hno hs hs'.symm).elim
      · exact (hno hs' hs.symm).elim
      · subst hs
        simpa [eq_comm] using hs'

/-- The task whose attaching was complete last, if the table was not let go of since. -/
def attachedBy? (past : List Act) : Option Nat :=
  (lastOf Act.attachment? past).join

/-- The table is that of the task whose attaching was complete last. Where that is no table, the
selection that the task was told is stored still, unless another table was selected since. -/
theorem Course.attached (h : Course s past m) (hl : attachedBy? past = some t) :
    (∃ T, .attaches t T ∈ past ∧ m.table = some T) ∨
      m.table = none ∧ ∃ sel, .selects t sel ∈ past ∧ sel.tableId.isTruthy = false ∧
        (m.selection = sel ∨ m.selection.tableId.isTruthy = true) := by
  induction h generalizing t with
  | initial => simp [attachedBy?] at hl
  | @act past m a h ha ih =>
      rw [attachedBy?, lastOf_concat] at hl
      rw [perform_table, perform_selection]
      cases a with
      | halts v | switches v => simp [Act.attachment?] at hl
      | attaches v T =>
          obtain rfl : v = t := by simpa [Act.attachment?, Act.completer?] using hl
          exact Or.inl ⟨T, by simp, rfl⟩
      | selects v x =>
          cases hx : x.tableId.isTruthy with
          | false =>
              obtain rfl : v = t := by simpa [Act.attachment?, Act.completer?, hx] using hl
              exact Or.inr ⟨by simp [hx], x, by simp, hx, Or.inl rfl⟩
          | true =>
              have hl' : attachedBy? past = some t := by
                simpa [attachedBy?, Act.attachment?, Act.completer?, hx] using hl
              obtain ⟨T, hT, hm⟩ | ⟨hm, y, hy, hf, -⟩ := ih hl'
              · exact Or.inl ⟨T, by simp [hT], by simpa [hx] using hm⟩
              · exact Or.inr ⟨by simpa [hx] using hm, y, by simp [hy], hf, Or.inr hx⟩
      | _ =>
          have hl' : attachedBy? past = some t := hl
          obtain ⟨T, hT, hm⟩ | ⟨hm, y, hy, hf, hs⟩ := ih hl'
          · exact Or.inl ⟨T, by simp [hT], hm⟩
          · exact Or.inr ⟨hm, y, by simp [hy], hf, hs⟩

/-- A task that attaches goes on to do so until its attaching is complete, or it fails. -/
theorem attaching_stays (ha : a.Admissible past m) {k : TaskKind} {ph : Phase}
    (hk : At m.tasks t k ph) (hp : ph.isAttaching = true) :
    (∃ ph', At (a.perform m).tasks t k ph' ∧ ph'.isAttaching = true) ∨ a.fails = true ∨
      a.completer? = some t ∨ ∃ b, past.getLast? = some b ∧ b.completer? = some t := by
  by_cases hu : a.actor? = some t
  · have hf := fits_of_admissible ha hu hk
    cases a with
    | selects v x =>
        obtain rfl := Option.some.inj hu
        exact Or.inl ⟨_, hk.perform_moves rfl, rfl⟩
    | attaches v U => exact Or.inr (Or.inr (Or.inl hu))
    | givesUp | abandons => exact Or.inr (Or.inl rfl)
    | postpones v | drops v | lacks v | serves v =>
        obtain rfl := Option.some.inj hu
        simp only [Act.Fits, Act.Comes] at hf
        right; right; right
        cases ph <;> simp_all [Phase.isAttaching]
    | _ => cases ph <;> simp_all [Act.actor?, Act.Fits, Phase.isAttaching, Phase.isPopulating,
        Phase.isPassing]
  · left
    exact ⟨ph, hk.perform (fun ph hm => hu (actor_of_moves hm)) fun he => hu (actor_of_ends he), hp⟩

theorem attachedBy?_concat (past : List Act) (a : Act) :
    attachedBy? (past ++ [a]) = (a.attachment?.or (lastOf Act.attachment? past)).join := by
  rw [attachedBy?, lastOf_concat]

theorem attachment_of_completer (hc : a.completer? = some t) : a.attachment? = some (some t) := by
  cases a <;> simp_all [Act.attachment?, Act.completer?]

theorem attachedBy?_of_getLast {b : Act} (hb : past.getLast? = some b)
    (hc : b.completer? = some t) : attachedBy? past = some t := by
  obtain ⟨x, rfl⟩ := List.getLast?_eq_some_iff.mp hb
  rw [attachedBy?_concat, attachment_of_completer hc]
  rfl

/-- While the monitor runs and nothing fails, a task attaches or its attaching is complete. -/
theorem Course.attaching_or_attached (h : Course s past m) (hn : ∀ a ∈ past, a.fails = false)
    (hr : m.running = true) :
    (∃ t k ph, At m.tasks t k ph ∧ ph.isAttaching = true) ∨ ∃ t, attachedBy? past = some t := by
  induction h with
  | initial => simp [Monitor.initial] at hr
  | @act past m a h ha ih =>
      simp only [List.mem_append, List.mem_singleton, or_imp, forall_and, forall_eq] at hn
      rw [perform_running] at hr
      -- an act that neither begins to attach nor completes it leaves the alternative as it was
      have hkeep (hr : m.running = true) (hc : a.attachment? = none) :
          (∃ t k ph, At (a.perform m).tasks t k ph ∧ ph.isAttaching = true) ∨
            ∃ t, attachedBy? (past ++ [a]) = some t := by
        rw [attachedBy?_concat, hc, Option.none_or]
        obtain ⟨t, k, ph, hk, hp⟩ | hl := ih hn.1 hr
        · obtain ⟨ph', hk'⟩ | hf | hc' | ⟨b, hb, hbc⟩ := attaching_stays ha hk hp
          · exact Or.inl ⟨t, k, ph', hk'⟩
          · simp [hn.2] at hf
          · simp [attachment_of_completer hc'] at hc
          · exact Or.inr ⟨t, attachedBy?_of_getLast hb hbc⟩
        · exact Or.inr hl
      cases a with
      | starts v => exact Or.inl ⟨v, _, _, ha.2.perform_moves rfl, rfl⟩
      | switches v =>
          have hk : At m.tasks v .switch .ready := ha
          exact Or.inl ⟨v, _, _, hk.perform_moves rfl, rfl⟩
      | halts v => simp at hr
      | attaches v U =>
          exact Or.inr ⟨v, by rw [attachedBy?_concat]; rfl⟩
      | selects v x =>
          cases hx : x.tableId.isTruthy with
          | true => exact hkeep hr (by simp [Act.attachment?, Act.completer?, hx])
          | false =>
              exact Or.inr ⟨v, by simp [attachedBy?_concat, Act.attachment?, Act.completer?, hx]⟩
      | _ => exact hkeep hr rfl

/-- A task is on its way to a table, or about to let go of one. -/
def Attaching (m : Monitor) : Prop :=
  ∃ t k ph, At m.tasks t k ph ∧ (ph.isAttaching = true ∨ ph = .ready ∧ k = .switch)

/-- The table and the stored selection belong to one selection. -/
def Follows (past : List Act) (m : Monitor) (sel : Selection) : Prop :=
  m.selection = sel ∧
    match m.table with
    | none => sel.tableId.isTruthy = false
    | some T => ∃ t, .attaches t T ∈ past ∧ .selects t sel ∈ past

/-- The table and the stored selection belong to one selection exactly when that was stored last
and the task whose attaching was complete last was told it. -/
theorem Course.follows_iff (h : Course s past m) (hl : attachedBy? past = some t) :
    Follows past m sel ↔ m.selection = sel ∧ .selects t sel ∈ past := by
  refine and_congr_right fun hs => ?_
  obtain ⟨T, hT, hm⟩ | ⟨hm, x, hx, hf, hsx⟩ := h.attached hl
  · simp only [hm]
    constructor
    · rintro ⟨u, hu, hsel⟩
      obtain ⟨rfl, -⟩ := h.attaches_unique hu hT rfl
      exact hsel
    · exact fun hsel => ⟨t, hT, hsel⟩
  · simp only [hm]
    constructor
    · intro hsel
      obtain rfl : m.selection = x := by simpa [hs, hsel] using hsx
      rw [← hs]
      exact hx
    · intro hsel
      rw [h.selects_unique hsel hx]
      exact hf

/-- When the monitor runs and no task attaches, and none has failed to, the table and the stored
selection belong to one selection exactly when that is stored and the task whose attaching was
complete last was told it. If the source replies with the selection that it has at the time, its
latest selection is stored. -/
theorem attachment_follows_iff (s : MonitorSettings) (first : Selection) (steps : List SourceStep)
    (hr : (run s (steps.map SourceStep.event)).running = true)
    (hq : ¬ Attaching (run s (steps.map SourceStep.event)))
    (hf : ∀ a ∈ history s (steps.map SourceStep.event), a.fails = false) :
    (Follows (history s (steps.map SourceStep.event)) (run s (steps.map SourceStep.event))
        (latest first steps) ↔
      (run s (steps.map SourceStep.event)).selection = latest first steps ∧
        ∃ t, attachedBy? (history s (steps.map SourceStep.event)) = some t ∧
          .selects t (latest first steps) ∈ history s (steps.map SourceStep.event)) ∧
      (Current first steps →
        (run s (steps.map SourceStep.event)).selection = latest first steps) := by
  have h := course_run s (steps.map SourceStep.event)
  constructor
  · obtain ⟨t, k, ph, hk, hp⟩ | ⟨t, hl⟩ := h.attaching_or_attached hf hr
    · exact absurd ⟨t, k, ph, hk, Or.inl hp⟩ hq
    · rw [h.follows_iff hl, hl]
      simp
  · intro hc
    obtain hs | ⟨t, k, ph, hk, hp⟩ := told_latest s first steps hf hc hr
    · exact hs
    · refine absurd ⟨t, k, ph, hk, hp.imp_left ?_⟩ hq
      rintro rfl
      rfl

/-- A change of the selection that is dealt with before anything else happens. -/
def oneSwitch : List SourceStep :=
  [.happens (.request .start), .happens (.begins 0),
    .happens (.replied 0 (.selection ⟨.text "orders", .null⟩)),
    .happens (.replied 0 (.opened true)), .happens (.replied 0 (.table (.fields []))),
    .happens (.replied 0 (.table (.page ⟨[], false, .null⟩))),
    .selects ⟨.text "invoices", .null⟩, .happens (.begins 1),
    .happens (.replied 1 (.selection ⟨.text "invoices", .null⟩)),
    .happens (.replied 1 (.opened true)), .happens (.replied 1 (.table (.fields []))),
    .happens (.replied 1 (.table (.page ⟨[], false, .null⟩)))]

theorem oneSwitch_follows :
    Follows (history watching (oneSwitch.map SourceStep.event))
      (run watching (oneSwitch.map SourceStep.event)) ⟨.text "invoices", .null⟩ := by
  have hq : ¬ Attaching (run watching (oneSwitch.map SourceStep.event)) := by
    rintro ⟨t, k, ph, hk, -⟩
    have ht : (run watching (oneSwitch.map SourceStep.event)).tasks = [] := rfl
    simp [At, ht] at hk
  have hf : (history watching (oneSwitch.map SourceStep.event)).all (fun a => !a.fails) = true :=
    rfl
  obtain ⟨hw, -⟩ := attachment_follows_iff watching ⟨.text "orders", .null⟩ oneSwitch rfl hq
    (by simpa using hf)
  exact hw.mpr ⟨rfl, 1, rfl, List.mem_of_getElem? (i := 11) rfl⟩

/-- The selection changes to another table, and then to none before that table is open. -/
def selectionGone : List SourceStep :=
  [.happens (.request .start), .happens (.begins 0),
    .happens (.replied 0 (.selection ⟨.text "orders", .null⟩)),
    .happens (.replied 0 (.opened true)), .happens (.replied 0 (.table (.fields []))),
    .happens (.replied 0 (.table (.page ⟨[], false, .null⟩))),
    .selects ⟨.text "invoices", .null⟩, .happens (.begins 1),
    .happens (.replied 1 (.selection ⟨.text "invoices", .null⟩)), .selects Selection.none,
    .happens (.begins 2), .happens (.replied 2 (.selection Selection.none)),
    .happens (.replied 1 (.opened true)), .happens (.replied 1 (.table (.fields []))),
    .happens (.replied 1 (.table (.page ⟨[], false, .null⟩)))]

/-- A table stays attached, though nothing is selected any more. -/
theorem selectionGone_attached :
    Current ⟨.text "orders", .null⟩ selectionGone ∧
      (run watching (selectionGone.map SourceStep.event)).running = true ∧
      (run watching (selectionGone.map SourceStep.event)).tasks = [] ∧
      (run watching (selectionGone.map SourceStep.event)).table =
        some ⟨1, .text "invoices", true⟩ ∧
      latest ⟨.text "orders", .null⟩ selectionGone = Selection.none ∧
      ¬ Follows (history watching (selectionGone.map SourceStep.event))
        (run watching (selectionGone.map SourceStep.event)) Selection.none := by
  refine ⟨?_, rfl, rfl, rfl, rfl, fun hw => ?_⟩
  · simp [selectionGone, current_cons, current_nil, SourceStep.selection]
  · have h := course_run watching (selectionGone.map SourceStep.event)
    have hl : attachedBy? (history watching (selectionGone.map SourceStep.event)) = some 1 := rfl
    have hsel := h.selects_unique
      ((h.follows_iff hl).mp hw).2 (List.mem_of_getElem? (i := 11) rfl)
    simp [Selection.none] at hsel

end Monitor

end TableAudit
