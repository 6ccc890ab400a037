import Mathlib.Data.List.Induction
import TableAudit.Proofs.Monitor.Course

/-!
# Histories

A history determines the monitor that it leads to, and every part of a history from the beginning
is one itself. So a fact about an act of a history is a fact about an admissible act, and a fact
about the tasks is one about the single task that an act moves, ends or begins.
-/

namespace TableAudit

namespace Act

/-- The task that an act gives a phase, and the phase. -/
def moves? : Act → Monitor → Option (Nat × Phase)
  | .starts t, _ => some (t, .selecting)
  | .halts t, m => if m.ownTasks.isEmpty then none else some (t, .stopping m.ownTasks)
  | .switches t, _ => some (t, .selecting)
  | .selects t s, _ => some (t, .opening s.tableId)
  | .serves t table view, _ => some (t, .passing ⟨table, view, .fields⟩)
  | .loads t p columns, m =>
    some (t, .passing { p with stage := .reading columns m.session.generation .start })
  | .pages t p columns generation r, _ =>
    some (t, .passing { p with stage := .reading columns generation r })
  | .takes t p columns rows, m => some (t, .passing (m.heldPass p columns rows))
  | .reads t p columns _ rows, m => some (t, .passing (m.heldPass p columns rows))
  | .turns t p pass i, m =>
    some (t, .passing { p with stage := .checking (pass.turn m.session i).pass })
  | .populates t ph _, _ => some (t, ph)
  | _, _ => none

/-- The task that an act ends. -/
def ends? : Act → Monitor → Option Nat
  | .halts t, m => if m.ownTasks.isEmpty then some t else none
  | .givesUp t _, _ => some t
  | .postpones t, _ => some t
  | .drops t, _ => some t
  | .lacks t, _ => some t
  | .closes t _, _ => some t
  | .ends t _, _ => some t
  | .abandons t, _ => some t
  | _, _ => none

/-- The task whose turn it is at an act, where that has to be known. -/
def actor? : Act → Option Nat
  | .starts t => some t
  | .halts t => some t
  | .switches t => some t
  | .selects t _ => some t
  | .attaches t _ => some t
  | .givesUp t _ => some t
  | .postpones t => some t
  | .drops t => some t
  | .lacks t => some t
  | .serves t _ _ => some t
  | .loads t _ _ => some t
  | .pages t _ _ _ _ => some t
  | .takes t _ _ _ => some t
  | .reads t _ _ _ _ => some t
  | .turns t _ _ _ => some t
  | .publishes t _ _ _ => some t
  | .closes t _ => some t
  | .populates t _ _ => some t
  | .ends t _ => some t
  | .abandons t => some t
  | _ => none

/-- Whether a task of a kind and in a phase has come to its trigger. -/
def Comes (past : List Act) (t : Nat) (k : TaskKind) (ph : Phase) : Prop :=
  (ph = .ready ∧ (k = .trigger ∨ k = .elapsed)) ∨
    ∃ id, ph = .opening id ∧ ∃ a, past.getLast? = some a ∧ a.completer? = some t

/-- Whether it can be the turn of a task of a kind and in a phase. -/
def Fits (past : List Act) : Act → TaskKind → Phase → Prop
  | .starts _, k, ph => k = .start ∧ ph = .ready
  | .halts _, k, ph => k = .stop ∧ ph = .ready
  | .switches _, k, ph => k = .switch ∧ ph = .ready
  | .selects _ _, _, ph => ph = .selecting
  | .attaches _ table, _, ph => ph = .opening table.id
  | .givesUp _ _, _, ph => ph.isAttaching = true
  | .postpones t, k, ph => k = .switch ∧ Comes past t k ph
  | .drops t, k, ph => Comes past t k ph
  | .lacks t, k, ph => Comes past t k ph
  | .serves t _ _, k, ph => Comes past t k ph
  | .loads _ p _, _, ph => ph = .passing p
  | .pages _ p _ _ _, _, ph => ph = .passing p
  | .takes _ p _ _, _, ph => ph = .passing p
  | .reads _ p _ _ _, _, ph => ph = .passing p
  | .turns _ p _ _, _, ph => ph = .passing p
  | .publishes .., _, ph => ph.isPassing = true
  | .closes _ _, _, ph => ph.isPassing = true
  | .populates .., k, ph => ph.isPopulating = true ∨ ph = .ready ∧ ∃ ids, k = .added ids
  | .ends _ _, k, ph =>
    ph.isPopulating = true ∨ (∃ others, ph = .stopping others) ∨
      ph = .ready ∧ (k = .start ∨ ∃ ids, k = .added ids)
  | .abandons _, _, ph => ph.isPassing = false
  | _, _, _ => True

/-- What a task is for that an act begins. -/
def begins? : Act → Monitor → Option TaskKind
  | .spawns k, _ => some k
  | .elapses, m => if m.running then some .elapsed else none
  | _, _ => none

end Act

/-- Two places in a list are one before the other, or the same. -/
theorem append_cons_cases {α : Type} {x y x' y' : List α} {c d : α}
    (h : x ++ c :: y = x' ++ d :: y') :
    (∃ z, x' = x ++ c :: z ∧ y = z ++ d :: y') ∨ (x' = x ∧ c = d ∧ y = y') ∨
      ∃ z, x = x' ++ d :: z ∧ y' = z ++ c :: y := by
  obtain ⟨z, rfl, hz⟩ | ⟨z, rfl, hz⟩ := List.append_eq_append_iff.mp h
  · cases z with
    | nil => simp_all
    | cons b z =>
        obtain ⟨rfl, rfl⟩ := List.cons.inj hz
        exact Or.inl ⟨z, rfl, rfl⟩
  · cases z with
    | nil => simp_all
    | cons b z =>
        obtain ⟨rfl, rfl⟩ := List.cons.inj hz
        exact Or.inr (Or.inr ⟨z, rfl, rfl⟩)

section LastOf

variable {β : Type} {f : Act → Option β} {acts : List Act} {a : Act} {b : β}

/-- What the last act gives that gives anything. -/
def lastOf (f : Act → Option β) (acts : List Act) : Option β :=
  acts.reverse.findSome? f

@[simp] theorem lastOf_nil : lastOf f [] = none :=
  rfl

theorem lastOf_concat : lastOf f (acts ++ [a]) = (f a).or (lastOf f acts) := by
  cases h : f a <;> simp [lastOf, h]

theorem lastOf_eq_none : lastOf f acts = none ↔ ∀ a ∈ acts, f a = none := by
  simp [lastOf]

theorem lastOf_eq_some :
    lastOf f acts = some b ↔
      ∃ x a y, acts = x ++ a :: y ∧ f a = some b ∧ ∀ c ∈ y, f c = none := by
  simp only [lastOf, List.findSome?_eq_some_iff, List.reverse_eq_iff]
  constructor
  · rintro ⟨y, a, x, rfl, ha, hy⟩
    exact ⟨x.reverse, a, y.reverse, by simp, ha, by simpa using hy⟩
  · rintro ⟨x, a, y, rfl, ha, hy⟩
    exact ⟨y.reverse, a, x.reverse, by simp, ha, by simpa using hy⟩

end LastOf

namespace Monitor

variable {s : MonitorSettings} {m : Monitor} {past later : List Act} {a : Act} {t u : Nat}

/-- The monitor that a history leads to. -/
def after (s : MonitorSettings) (acts : List Act) : Monitor :=
  acts.foldl (fun m a => a.perform m) (initial s)

@[simp] theorem after_nil : after s [] = initial s :=
  rfl

@[simp] theorem after_concat : after s (past ++ [a]) = a.perform (after s past) := by
  simp [after]

theorem Course.eq_after (h : Course s past m) : m = after s past := by
  induction h with
  | initial => rfl
  | act a _ _ ih => rw [after_concat, ← ih]

theorem Course.of_concat (h : Course s (past ++ [a]) m) :
    Course s past (after s past) ∧ a.Admissible past (after s past) := by
  generalize hx : past ++ [a] = xs at h
  cases h with
  | initial => simp at hx
  | act b h hb =>
      obtain ⟨rfl, hab⟩ := List.append_inj' hx rfl
      obtain rfl : a = b := by simpa using hab
      rw [← h.eq_after]
      exact ⟨h, hb⟩

theorem Course.of_append (h : Course s (past ++ later) m) : Course s past (after s past) := by
  induction later using List.reverseRecOn generalizing m with
  | nil =>
      rw [List.append_nil] at h
      rw [← h.eq_after]
      exact h
  | append_singleton later a ih =>
      rw [← List.append_assoc] at h
      exact ih h.of_concat.1

theorem Course.of_split (h : Course s (past ++ a :: later) m) :
    Course s past (after s past) ∧ a.Admissible past (after s past) := by
  rw [List.append_cons] at h
  exact h.of_append.of_concat

theorem run_eq_after (s : MonitorSettings) (es : List MonitorEvent) :
    run s es = after s (history s es) :=
  (course_run s es).eq_after

@[simp] theorem perform_settings : (a.perform m).settings = m.settings := by
  cases a <;> simp only [Act.perform, Act.change] <;> split <;> rfl

theorem Course.settings_eq (h : Course s past m) : m.settings = s := by
  induction h with
  | initial => rfl
  | act a _ _ ih => rw [perform_settings, ih]

theorem At.unique {xs : List Task} {k k' : TaskKind} {ph ph' : Phase} (h : At xs t k ph)
    (h' : At xs t k' ph') : k = k' ∧ ph = ph' := by
  simpa using Option.some.inj (h.symm.trans h')

theorem Passing.unique {xs : List Task} {p q : PassRun} (h : Passing xs t p)
    (h' : Passing xs t q) : p = q := by
  obtain ⟨k, hk⟩ := h
  obtain ⟨k', hk'⟩ := h'
  simpa using (hk.unique hk').2

theorem at_withPhase {xs : List Task} {k : TaskKind} {ph ph' : Phase} :
    At (withPhase t ph xs) u k ph' ↔
      (u ≠ t ∧ At xs u k ph') ∨ (u = t ∧ ph' = ph ∧ ∃ ph₀, At xs u k ph₀) := by
  simp only [At, find_withPhase]
  cases hx : xs.find? (·.number = u) with
  | none => simp
  | some x =>
      have hn := List.find?_some hx
      simp only [decide_eq_true_eq] at hn
      obtain ⟨n, k₀, ph₀⟩ := x
      subst hn
      by_cases h : n = t
      · simp [h, and_comm, eq_comm]
      · simp [h]

theorem at_without {xs : List Task} {k : TaskKind} {ph : Phase} :
    At (without t xs) u k ph ↔ u ≠ t ∧ At xs u k ph := by
  have hf : (without t xs).find? (·.number = u) =
      if u = t then none else xs.find? (·.number = u) := by
    induction xs with
    | nil => simp [without]
    | cons x xs ih =>
        simp only [without] at ih
        by_cases hx : x.number = t <;> by_cases hu : u = t <;> by_cases hxu : x.number = u <;>
          simp_all [without]
  simp only [At, hf]
  by_cases h : u = t <;> simp [h]

theorem at_append {xs : List Task} {n : Nat} {k k' : TaskKind} {ph ph' : Phase} :
    At (xs ++ [⟨n, k, ph⟩]) u k' ph' ↔
      At xs u k' ph' ∨ (xs.find? (·.number = u) = none ∧ u = n ∧ k' = k ∧ ph' = ph) := by
  simp only [At, List.find?_append]
  cases hx : xs.find? (·.number = u) with
  | none => by_cases h : n = u <;> simp [h, eq_comm]
  | some x => simp

/-- An act moves, ends or begins one task at most. -/
theorem perform_tasks (a : Act) (m : Monitor) :
    (a.perform m).tasks =
      match a.moves? m, a.ends? m, a.begins? m with
      | some (t, ph), _, _ => withPhase t ph m.tasks
      | _, some t, _ => without t m.tasks
      | _, _, some k => m.tasks ++ [⟨m.nextTask, k, .ready⟩]
      | _, _, _ => m.tasks := by
  cases a with
  | elapses => cases h : m.running <;>
      simp [Act.perform, Act.change, Act.moves?, Act.ends?, Act.begins?, h]
  | halts t => cases h : m.ownTasks.isEmpty <;>
      simp [Act.perform, Act.change, Act.moves?, Act.ends?, Act.begins?, h]
  | givesUp t e => cases e <;> rfl
  | _ => rfl

/-- An act does nothing else to the task that it ends. -/
theorem moves?_of_ends (he : a.ends? m = some t) : a.moves? m = none := by
  cases a with
  | halts u =>
      simp only [Act.ends?] at he
      split at he
      next ho => exact if_pos ho
      next => cases he
  | givesUp | postpones | drops | lacks | closes | ends | abandons => rfl
  | _ => cases he

/-- A task after an act was there before, untouched, or moved, or began. -/
theorem at_of_perform {k : TaskKind} {ph : Phase} (h : At (a.perform m).tasks u k ph) :
    (At m.tasks u k ph ∧ (∀ ph', a.moves? m ≠ some (u, ph')) ∧ a.ends? m ≠ some u) ∨
      (a.moves? m = some (u, ph) ∧ ∃ ph₀, At m.tasks u k ph₀) ∨
      (a.begins? m = some k ∧ u = m.nextTask ∧ ph = .ready) := by
  rw [perform_tasks] at h
  split at h
  next t ph' hm =>
    rw [at_withPhase] at h
    obtain ⟨hu, h⟩ | ⟨rfl, rfl, h⟩ := h
    · refine Or.inl ⟨h, by simp [hm, Ne.symm hu], fun he => ?_⟩
      simp [moves?_of_ends he] at hm
    · exact Or.inr (Or.inl ⟨hm, h⟩)
  next t he hn =>
    rw [at_without] at h
    exact Or.inl ⟨h.2, fun ph' h' => hn u ph' h', by simp [he, h.1.symm]⟩
  next k' hb hn he =>
    rw [at_append] at h
    obtain h | ⟨-, rfl, rfl, rfl⟩ := h
    · exact Or.inl ⟨h, fun ph' h' => hn u ph' h', fun h' => he u h'⟩
    · exact Or.inr (Or.inr ⟨hb, rfl, rfl⟩)
  next hn he _ => exact Or.inl ⟨h, fun ph' h' => hn u ph' h', fun h' => he u h'⟩

theorem actor_of_moves {ph : Phase} (hm : a.moves? m = some (u, ph)) : a.actor? = some u := by
  cases a with
  | halts t =>
      simp only [Act.moves?] at hm
      split at hm <;> simp_all [Act.actor?]
  | _ => simp_all [Act.moves?, Act.actor?]

theorem actor_of_ends (he : a.ends? m = some u) : a.actor? = some u := by
  cases a with
  | halts t =>
      simp only [Act.ends?] at he
      split at he <;> simp_all [Act.actor?]
  | _ => simp_all [Act.ends?, Act.actor?]

theorem Due.comes (hd : Act.Due past m t) :
    ∃ k ph, At m.tasks t k ph ∧ Act.Comes past t k ph := by
  obtain ⟨k, hk, hr⟩ | ⟨k, id, hk, hc⟩ := hd
  · exact ⟨k, _, hk, Or.inl ⟨rfl, hr⟩⟩
  · exact ⟨k, _, hk, Or.inr ⟨id, rfl, hc⟩⟩

/-- The task whose turn it is at an admissible act is there, and the act fits it. -/
theorem exists_fitting (ha : a.Admissible past m) (hu : a.actor? = some u) :
    ∃ k ph, At m.tasks u k ph ∧ a.Fits past k ph := by
  cases a with
  | starts t =>
      obtain rfl := Option.some.inj hu
      exact ⟨_, _, ha.2, rfl, rfl⟩
  | halts t | switches t =>
      obtain rfl := Option.some.inj hu
      exact ⟨_, _, ha, rfl, rfl⟩
  | selects t sel =>
      obtain rfl := Option.some.inj hu
      obtain ⟨k, hk⟩ := ha
      exact ⟨k, _, hk, rfl⟩
  | attaches t table | turns t p pass i =>
      obtain rfl := Option.some.inj hu
      obtain ⟨-, k, hk⟩ := ha
      exact ⟨k, _, hk, rfl⟩
  | postpones t =>
      obtain rfl := Option.some.inj hu
      obtain ⟨k, ph, hk, hc⟩ := Due.comes ha.2.2
      have hx : m.kind? t = some k := by
        rw [kind?, task?, hk]
        rfl
      exact ⟨k, ph, hk, by simpa [hx] using ha.1, hc⟩
  | drops t =>
      obtain rfl := Option.some.inj hu
      exact Due.comes ha.2
  | lacks t =>
      obtain rfl := Option.some.inj hu
      exact Due.comes ha.2.2
  | serves t table view =>
      obtain rfl := Option.some.inj hu
      exact Due.comes ha.2.2.2
  | loads t p columns | takes t p columns rows =>
      obtain rfl := Option.some.inj hu
      obtain ⟨-, -, k, hk⟩ := ha
      exact ⟨k, _, hk, rfl⟩
  | pages t p columns g r =>
      obtain rfl := Option.some.inj hu
      obtain ⟨_, -, k, hk⟩ := ha
      exact ⟨k, _, hk, rfl⟩
  | reads t p columns g rows =>
      obtain rfl := Option.some.inj hu
      obtain ⟨_, _, -, ⟨k, hk⟩, -⟩ := ha
      exact ⟨k, _, hk, rfl⟩
  | publishes t table rows r =>
      obtain rfl := Option.some.inj hu
      obtain ⟨-, p, pass, -, -, ⟨k, hk⟩, -⟩ := ha
      exact ⟨k, _, hk, rfl⟩
  | closes t o =>
      obtain rfl := Option.some.inj hu
      obtain ⟨p, ⟨k, hk⟩, -⟩ := ha
      exact ⟨k, _, hk, rfl⟩
  | populates t ph e =>
      obtain rfl := Option.some.inj hu
      exact ha.2.2
  | givesUp t e | ends t o | abandons t =>
      obtain rfl := Option.some.inj hu
      exact ha
  | _ => simp [Act.actor?] at hu

/-- An admissible act fits the task whose turn it is. -/
theorem fits_of_admissible (ha : a.Admissible past m) (hu : a.actor? = some u) {k : TaskKind}
    {ph : Phase} (hk : At m.tasks u k ph) : a.Fits past k ph := by
  obtain ⟨k', ph', hk', hf⟩ := exists_fitting ha hu
  obtain ⟨rfl, rfl⟩ := hk.unique hk'
  exact hf

theorem At.perform {k : TaskKind} {ph : Phase} (h : At m.tasks u k ph)
    (hm : ∀ ph', a.moves? m ≠ some (u, ph')) (he : a.ends? m ≠ some u) :
    At (a.perform m).tasks u k ph := by
  rw [perform_tasks]
  split
  next t ph' ha => exact at_withPhase.mpr (Or.inl ⟨by rintro rfl; exact hm _ ha, h⟩)
  next t ha _ => exact at_without.mpr ⟨by rintro rfl; exact he ha, h⟩
  next => exact at_append.mpr (Or.inl h)
  next => exact h

theorem At.perform_moves {k : TaskKind} {ph ph₀ : Phase} (h : At m.tasks u k ph₀)
    (hm : a.moves? m = some (u, ph)) : At (a.perform m).tasks u k ph := by
  rw [perform_tasks, hm]
  exact h.withPhase ph

end Monitor

end TableAudit

/-!
## The attached table

Serial numbers tell openings apart: a table that is attached was opened last, and it was opened
once. What a task attaches is the table of the selection that it was told. A table that was let
go of is never attached again.
-/

namespace TableAudit

namespace Act

/-- The selection that an act stores. -/
def selection? : Act → Option Selection
  | .selects _ s => some s
  | _ => none

end Act

namespace Monitor

variable {s : MonitorSettings} {m : Monitor} {past later : List Act} {a : Act} {t u : Nat}
variable {T U : OpenTable}

theorem perform_table (a : Act) (m : Monitor) :
    (a.perform m).table =
      match a with
      | .halts _ => none
      | .switches _ => none
      | .selects _ s => if s.tableId.isTruthy then m.table else none
      | .attaches _ table => some table
      | _ => m.table := by
  cases a <;> simp only [Act.perform, Act.change] <;> split <;> rfl

theorem perform_nextTable (a : Act) (m : Monitor) :
    (a.perform m).nextTable =
      match a with
      | .attaches _ _ => m.nextTable + 1
      | _ => m.nextTable := by
  cases a <;> simp only [Act.perform, Act.change] <;> split <;> rfl

theorem perform_selection (a : Act) (m : Monitor) :
    (a.perform m).selection = (a.selection?).getD m.selection := by
  cases a <;> simp only [Act.perform, Act.change, Act.selection?] <;> first | rfl | split <;> rfl

/-- The selection that is stored is the last one that a task was told. -/
theorem Course.selection_eq (h : Course s past m) :
    m.selection = (lastOf Act.selection? past).getD Selection.none := by
  induction h with
  | initial => rfl
  | act a _ _ ih =>
      rw [perform_selection, lastOf_concat, ih]
      cases a.selection? <;> rfl

theorem nextTable_le (a : Act) (m : Monitor) : m.nextTable ≤ (a.perform m).nextTable := by
  rw [perform_nextTable]
  split <;> omega

theorem after_nextTable_le (s : MonitorSettings) (past later : List Act) :
    (after s past).nextTable ≤ (after s (past ++ later)).nextTable := by
  induction later using List.reverseRecOn with
  | nil => simp
  | append_singleton later a ih =>
      rw [← List.append_assoc, after_concat]
      exact Nat.le_trans ih (nextTable_le a _)

theorem Course.serial_lt (h : Course s past m) (hT : .attaches u T ∈ past) :
    T.serial < m.nextTable := by
  induction h with
  | initial => simp at hT
  | @act past m a h ha ih =>
      simp only [List.mem_append, List.mem_singleton] at hT
      obtain hT | rfl := hT
      · exact Nat.lt_of_lt_of_le (ih hT) (nextTable_le a m)
      · simp [perform_nextTable, ha.1]

/-- A serial number belongs to one opening. -/
theorem Course.attaches_unique (h : Course s past m) (hT : .attaches t T ∈ past)
    (hU : .attaches u U ∈ past) (hs : T.serial = U.serial) : t = u ∧ T = U := by
  induction h with
  | initial => simp at hT
  | @act past m a h ha ih =>
      simp only [List.mem_append, List.mem_singleton] at hT hU
      obtain hT | rfl := hT <;> obtain hU | hU := hU
      · exact ih hT hU
      · subst hU
        have := h.serial_lt hT
        have := ha.1
        omega
      · have := h.serial_lt hU
        have := ha.1
        omega
      · simpa [eq_comm] using hU

/-- The table that is attached was opened last. -/
theorem Course.table_newest (h : Course s past m) (hm : m.table = some T) :
    T.serial + 1 = m.nextTable ∧ ∃ u, .attaches u T ∈ past := by
  induction h with
  | initial => simp [Monitor.initial] at hm
  | @act past m a h ha ih =>
      rw [perform_table] at hm
      rw [perform_nextTable]
      split at hm
      · simp at hm
      · simp at hm
      · split at hm
        · exact (ih hm).imp_right fun ⟨u, hu⟩ => ⟨u, by simp [hu]⟩
        · simp at hm
      next v U =>
        obtain rfl := Option.some.inj hm
        exact ⟨by rw [ha.1], v, by simp⟩
      next hn =>
        obtain ⟨hs, u, hu⟩ := ih hm
        refine ⟨?_, u, by simp [hu]⟩
        split
        next => exact absurd rfl (hn _ _)
        next => exact hs

theorem Course.sameTable_iff (h : Course s past m) (hT : .attaches u T ∈ past) :
    sameTable m.table (some T) = true ↔ m.table = some T := by
  cases hm : m.table with
  | none => simp [sameTable]
  | some U =>
      obtain ⟨-, v, hU⟩ := h.table_newest hm
      simp only [sameTable, Option.map_some, beq_iff_eq, Option.some.injEq]
      exact ⟨fun hs => (h.attaches_unique hU hT hs).2, fun hs => by rw [hs]⟩

/-- A table that is attached and was opened before was attached all the time. -/
theorem Course.table_kept (h : Course s past m) (hT : .attaches u T ∈ past)
    (ha : a.Admissible past m) (hm : (a.perform m).table = some T) :
    m.table = some T ∧ (∀ t, a ≠ .halts t) ∧ ∀ t, a ≠ .switches t := by
  rw [perform_table] at hm
  split at hm
  · simp at hm
  · simp at hm
  · split at hm
    · exact ⟨hm, by simp, by simp⟩
    · simp at hm
  next v U =>
    obtain rfl := Option.some.inj hm
    have := h.serial_lt hT
    have := ha.1
    omega
  next hh hs _ _ => exact ⟨hm, hh, hs⟩

theorem Course.table_throughout (h : Course s (past ++ later) m) (hT : .attaches u T ∈ past)
    (hm : m.table = some T) :
    (after s past).table = some T ∧ (∀ t, .halts t ∉ later) ∧ ∀ t, .switches t ∉ later := by
  induction later using List.reverseRecOn generalizing m with
  | nil =>
      rw [List.append_nil] at h
      rw [← h.eq_after]
      exact ⟨hm, by simp, by simp⟩
  | append_singleton later a ih =>
      rw [h.eq_after] at hm
      rw [← List.append_assoc] at h hm
      rw [after_concat] at hm
      obtain ⟨h₁, ha⟩ := h.of_concat
      obtain ⟨hm₁, hh, hs⟩ := h₁.table_kept (List.mem_append_left _ hT) ha hm
      obtain ⟨hp, hh', hs'⟩ := ih h₁ hm₁
      refine ⟨hp, fun t ht => ?_, fun t ht => ?_⟩
      · simp only [List.mem_append, List.mem_singleton] at ht
        exact ht.elim (hh' t) fun he => hh t he.symm
      · simp only [List.mem_append, List.mem_singleton] at ht
        exact ht.elim (hs' t) fun he => hs t he.symm

/-- A task that opens a table was told a selection with it. -/
theorem Course.opening_selected (h : Course s past m) {k : TaskKind} {id : Value}
    (ht : At m.tasks t k (.opening id)) : ∃ sel, .selects t sel ∈ past ∧ sel.tableId = id := by
  induction h with
  | initial => simp [At, Monitor.initial] at ht
  | @act past m a h ha ih =>
      obtain ⟨ht, -⟩ | ⟨hm, -⟩ | ⟨-, -, hr⟩ := at_of_perform ht
      · obtain ⟨sel, hsel, hid⟩ := ih ht
        exact ⟨sel, by simp [hsel], hid⟩
      · cases a with
        | selects v sel =>
            simp only [Act.moves?, Option.some.injEq, Prod.mk.injEq, Phase.opening.injEq] at hm
            exact ⟨sel, by simp [hm.1], hm.2⟩
        | populates v ph e =>
            obtain ⟨hp, -⟩ := ha
            simp only [Act.moves?, Option.some.injEq, Prod.mk.injEq] at hm
            simp [hm.2, Phase.isPopulating] at hp
        | halts v =>
            simp only [Act.moves?] at hm
            split at hm <;> simp at hm
        | _ => simp [Act.moves?] at hm
      · simp at hr

/-- What a task attaches is the table of the selection that it was told. -/
theorem Course.attaches_selected (h : Course s past m) (hT : .attaches t T ∈ past) :
    ∃ sel, .selects t sel ∈ past ∧ sel.tableId = T.id := by
  induction h with
  | initial => simp at hT
  | @act past m a h ha ih =>
      simp only [List.mem_append, List.mem_singleton] at hT
      obtain hT | rfl := hT
      · exact (ih hT).imp fun sel hs => ⟨by simp [hs.1], hs.2⟩
      · obtain ⟨-, k, hk⟩ := ha
        exact (h.opening_selected hk).imp fun sel hs => ⟨by simp [hs.1], hs.2⟩

end Monitor

end TableAudit
