import TableAudit.Proofs.Monitor.Provenance
import TableAudit.Proofs.Monitor.Passes

/-!
# Freshness of reports

After a change the monitor comes to rest with a report on rows that were read since, unless every
trigger since was dropped in favour of a pass that had its rows already. A pass that gets its
rows after the change gets fresh ones: rows that were read before it are not kept.
-/

namespace TableAudit

namespace Act

/-- The report that an act shows, with its task. -/
def report? : Act → Option (Nat × Report)
  | .publishes t _ _ r => some (t, r)
  | _ => none

/-- Whether a pass begins to read rows. -/
def isLoad : Act → Bool
  | .loads .. => true
  | _ => false

end Act

namespace Monitor

variable {s : MonitorSettings} {m : Monitor} {past before later : List Act} {a g : Act} {t u : Nat}
variable {p : PassRun}

/-- The monitor runs, nothing is under way, and nothing is to come. -/
structure Quiet (m : Monitor) : Prop where
  running : m.running = true
  idle : m.inFlight = false
  disarmed : m.timer = none
  free : m.tasks = []

/-- The report that was shown last is on rows of which the reading began in the later part of a
history. -/
def ShownFresh (past later : List Act) : Prop :=
  ∃ x t table rows r y, later = x ++ .publishes t table rows r :: y ∧
    (∀ b ∈ y, b.report? = none) ∧
    ∃ u q, lastOf Act.read? (past ++ x) = some (u, q, rows) ∧ ∃ p columns, .loads u p columns ∈ x

/-- A task has not got rows in a history. -/
def Rowless (past : List Act) (t : Nat) : Prop :=
  ∀ b ∈ past, b.getsRows t = false

theorem gets_passing (ha : g.Admissible past m) (hg : g.getsRows t = true) :
    ∃ p, Passing m.tasks t p ∧ p.stage = .fields := by
  cases g with
  | loads u p columns | takes u p columns rows =>
      obtain rfl : u = t := by simpa [Act.getsRows] using hg
      exact ⟨p, ha.2.2, ha.2.1⟩
  | _ => simp [Act.getsRows] at hg

theorem Course.gets_served (h : Course s past m) (hg : g ∈ past) (ht : g.getsRows t = true) :
    ∃ table view, .serves t table view ∈ past := by
  obtain ⟨x, y, rfl⟩ := List.mem_iff_append.mp hg
  obtain ⟨h₁, ha⟩ := h.of_split
  obtain ⟨p, hp, -⟩ := gets_passing ha ht
  obtain ⟨b, z, rfl⟩ := h₁.passing_served hp
  exact ⟨p.table, p.viewId, by simp⟩

/-- A pass that got its rows is past the reading of its columns. -/
theorem Course.stage_ne_fields (h : Course s past m) (hg : g ∈ past) (ht : g.getsRows t = true)
    (hp : Passing m.tasks t p) : p.stage ≠ .fields := by
  induction h generalizing p with
  | initial => simp at hg
  | @act past m a h ha ih =>
      simp only [List.mem_append, List.mem_singleton] at hg
      obtain ⟨hp, -, hn⟩ | ⟨q, -, -, -, -, -, hs⟩ | ⟨table, view, rfl, -⟩ :=
        passing_of_perform ha hp
      · obtain hg | rfl := hg
        · exact ih hg hp
        · cases g with
          | loads u q columns | takes u q columns rows =>
              obtain rfl : u = t := by simpa [Act.getsRows] using ht
              exact absurd rfl (hn q)
          | _ => simp [Act.getsRows] at ht
      · exact hs
      · obtain hg | rfl := hg
        · obtain ⟨table', view', hs⟩ := h.gets_served hg ht
          exact absurd hs (h.unserved_of_due ha.2.2.2 _ _)
        · simp [Act.getsRows] at ht

/-- A pass that had its rows before, and is under way still, excludes any other meanwhile. -/
theorem Course.sole_pass (h : Course s (past ++ later) m) (hg : g ∈ past)
    (ht : g.getsRows t = true) (hp : Passing m.tasks t p) {q : PassRun}
    (hq : Passing (after s past).tasks u q) : u = t ∧ q.stage ≠ .fields := by
  obtain ⟨table, view, hs⟩ := h.of_append.gets_served hg ht
  obtain ⟨r, hr, -⟩ := h.passing_since hs hp
  obtain ⟨rfl, rfl⟩ := h.of_append.passing_eq hq hr
  exact ⟨rfl, h.of_append.stage_ne_fields hg ht hr⟩

/-- Rows that a task got after a change are rows of which the reading began after it. -/
theorem Fetched.after_change {x : List Act} (h : Fetched (before ++ .changes :: x) t u)
    (hb : Rowless before t) : ∃ p columns, .loads u p columns ∈ x := by
  obtain ⟨y, g, z, hx, hg, w, p, columns, v, hw, hv⟩ := h
  obtain ⟨x₁, rfl, rfl⟩ | ⟨-, rfl, -⟩ | ⟨z, rfl, -⟩ := append_cons_cases hx
  · have hs : before ++ .changes :: (x₁ ++ [g]) = w ++ .loads u p columns :: v := by
      simpa using hw
    obtain ⟨z', -, hz'⟩ | ⟨-, hc, -⟩ | ⟨z', -, rfl⟩ := append_cons_cases hs
    · have hmem : .loads u p columns ∈ x₁ ++ [g] := by simp [hz']
      exact ⟨p, columns, by simp only [List.mem_append, List.mem_singleton] at hmem; simp; tauto⟩
    · simp at hc
    · simpa [Act.invalidates] using hv .changes (by simp)
  · simp [Act.getsRows] at hg
  · simp [hb g (by simp)] at hg

theorem publishes_passing {table : OpenTable} {rows : List Row} {r : Report}
    (ha : (Act.publishes t table rows r).Admissible past m) :
    ∃ p pass, p.table = table ∧ p.stage = .checking pass ∧ Passing m.tasks t p ∧
      pass.rows = rows := by
  obtain ⟨-, p, pass, hp, hc, ht, hr, -⟩ := ha
  exact ⟨p, pass, hp, hc, ht, hr⟩

/-- The report that is shown last is fresh exactly when a pass that got its rows after the change
has shown one. -/
theorem Course.shownFresh_iff (h : Course s (before ++ .changes :: later) m) :
    ShownFresh (before ++ [.changes]) later ↔
      ∃ t table rows r, .publishes t table rows r ∈ later ∧ Rowless before t := by
  constructor
  · rintro ⟨x, t, table, rows, r, y, rfl, -, u, q, -, p, columns, hl⟩
    refine ⟨t, table, rows, r, by simp, fun g hg => ?_⟩
    by_contra ht
    rw [Bool.not_eq_false] at ht
    obtain ⟨x₁, x₂, rfl⟩ := List.mem_iff_append.mp hl
    have h₁ : Course s ((before ++ .changes :: x₁) ++ .loads u p columns :: x₂ ++
        .publishes t table rows r :: y) m := by simpa using h
    obtain ⟨h₂, ha⟩ := h₁.of_split
    obtain ⟨-, hf, hu⟩ := h₂.of_split.2
    obtain ⟨p', pass, -, -, hp', -⟩ := publishes_passing ha
    exact (h₂.sole_pass (by simp [hg]) ht hp' hu).2 hf
  · rintro ⟨t₀, table₀, rows₀, r₀, hmem, hb₀⟩
    obtain ⟨⟨t, r⟩, hlast⟩ : ∃ x, lastOf Act.report? later = some x := by
      rw [← Option.ne_none_iff_exists']
      intro hn
      simpa [Act.report?] using lastOf_eq_none.mp hn _ hmem
    obtain ⟨x, a, y, rfl, ha, hy⟩ := lastOf_eq_some.mp hlast
    obtain ⟨table, rows, rfl⟩ : ∃ table rows, a = .publishes t table rows r := by
      cases a <;> simp_all [Act.report?]
    have h₁ : Course s ((before ++ .changes :: x) ++ .publishes t table rows r :: y) m := by
      simpa using h
    obtain ⟨h₂, ha⟩ := h₁.of_split
    obtain ⟨p, pass, -, hc, hp, rfl⟩ := publishes_passing ha
    have hb : Rowless before t := by
      intro g hg
      by_contra ht
      rw [Bool.not_eq_false] at ht
      -- the pass excludes the other one, which has shown its report by now
      simp only [List.mem_append, List.mem_cons] at hmem
      obtain hmem | hmem | hmem := hmem
      · obtain ⟨x₁, x₂, rfl⟩ := List.mem_iff_append.mp hmem
        have h₃ : Course s ((before ++ .changes :: x₁) ++ .publishes t₀ table₀ rows₀ r₀ :: x₂)
            (after s (before ++ .changes :: (x₁ ++ .publishes t₀ table₀ rows₀ r₀ :: x₂))) := by
          simpa using h₂
        obtain ⟨p₀, pass₀, -, -, hp₀, -⟩ := publishes_passing h₃.of_split.2
        obtain ⟨rfl, -⟩ := h₃.sole_pass (by simp [hg]) ht hp hp₀
        simp [hb₀ g hg] at ht
      · simp only [Act.publishes.injEq] at hmem
        obtain ⟨rfl, -⟩ := hmem
        simp [hb₀ g hg] at ht
      · simpa [Act.report?] using hy _ hmem
    obtain ⟨u, q, hl, hf⟩ := h₂.rows_known.checking t p pass hp hc
    exact ⟨x, t, table, pass.rows, r, y, rfl, hy, u, q, by simpa using hl, hf.after_change hb⟩

/-- A pass on the table that stays attached, which is not under way in the end and was closed with
a report if it was closed, has shown it. -/
theorem Course.published_of_passing (h : Course s (past ++ later) m) {T : OpenTable} {o : Nat}
    (ho : .attaches o T ∈ past) (hT : m.table = some T) (hm : m.tasks = [])
    (hp : Passing (after s past).tasks t p) (ht : p.table = T)
    (hl : ∀ rows r, past.getLast? ≠ some (.publishes t T rows r))
    (hc : ∀ o, .closes t o ∈ later → ∃ r, o = .report r) :
    ∃ rows r, .publishes t T rows r ∈ later := by
  obtain ⟨x, out, y, rfl, q, hq, hqt⟩ :=
    h.passing_closes hp fun q ⟨k, hk⟩ => by simp [At, hm] at hk
  obtain ⟨r, rfl⟩ := hc out (by simp)
  rw [← List.append_assoc] at h
  obtain ⟨h₁, q', hq', hr⟩ := h.of_split
  obtain rfl := hq.unique hq'
  have htable := (h.table_throughout (List.mem_append_left _ ho) hT).1
  obtain ⟨rows, hlast⟩ := hr r rfl (by simp [htable, hqt, ht, sameTable])
  rw [hqt, ht, List.getLast?_append, Option.or_eq_some_iff] at hlast
  obtain hlast | ⟨-, hlast⟩ := hlast
  · exact ⟨rows, r, List.mem_append_left _ (List.mem_of_getLast? hlast)⟩
  · exact absurd hlast (hl rows r)

/-- A task that has yet to be served has not got rows. -/
theorem Course.rowless_of_due (h : Course s past m) (hd : Act.Due past m t) : Rowless past t := by
  intro g hg
  by_contra hgt
  rw [Bool.not_eq_false] at hgt
  obtain ⟨table, view, hs⟩ := h.gets_served hg hgt
  exact h.unserved_of_due hd table view hs

/-- A pass on the attached table that shows its report after a change began after it, or was under
way at the change. -/
theorem Course.begun_of_publishes (h : Course s (before ++ .changes :: later) m)
    {T U : OpenTable} {o : Nat} (ho : .attaches o T ∈ before) (hT : m.table = some T)
    {rows : List Row} {r : Report} (hr : .publishes t U rows r ∈ later) :
    (∃ view, .serves t U view ∈ later) ∨ ∃ p, Passing (after s before).tasks t p ∧ p.table = T := by
  obtain ⟨x, y, rfl⟩ := List.mem_iff_append.mp hr
  have h₁ : Course s ((before ++ .changes :: x) ++ .publishes t U rows r :: y) m := by
    simpa using h
  obtain ⟨h₂, ha⟩ := h₁.of_split
  obtain ⟨p, -, rfl, -, hp, -⟩ := publishes_passing ha
  obtain ⟨v, w, hs⟩ := h₂.passing_served hp
  have hmem : .serves t p.table p.viewId ∈ before ++ .changes :: x := by simp [hs]
  simp only [List.mem_append, List.mem_cons, reduceCtorEq, false_or] at hmem
  obtain hmem | hmem := hmem
  · obtain ⟨q, hq, hqt⟩ := h₂.passing_since hmem hp
    have htable := (h₁.table_throughout (List.mem_append_left _ ho) hT).1
    obtain ⟨h₃, -, hserved, -⟩ := (hs ▸ h₂).of_split
    obtain ⟨-, o', ho'⟩ := h₃.table_newest hserved
    have hpast : .attaches o' p.table ∈ before ++ .changes :: x := by simp [hs, ho']
    have hsame := (h₂.sameTable_iff hpast).mp ha.1
    rw [htable, Option.some.injEq] at hsame
    exact Or.inr ⟨q, hq, hqt.trans hsame.symm⟩
  · exact Or.inl ⟨p.viewId, by simp [hmem]⟩

/-- A pass that began while the table stayed attached has shown its report. -/
theorem Course.published_of_serves (h : Course s (past ++ later) m) {T U : OpenTable} {o : Nat}
    (ho : .attaches o T ∈ past) (hT : m.table = some T) (hm : m.tasks = []) {view : Value}
    (hs : .serves t U view ∈ later) (hc : ∀ o, .closes t o ∈ later → ∃ r, o = .report r) :
    Rowless past t ∧ ∃ rows r, .publishes t T rows r ∈ later := by
  obtain ⟨x, y, rfl⟩ := List.mem_iff_append.mp hs
  rw [← List.append_assoc] at h
  have hpast : .attaches o T ∈ past ++ x := List.mem_append_left _ ho
  obtain ⟨h₁, -, htable, -, hd⟩ := h.of_split
  rw [(h.table_throughout hpast hT).1, Option.some.injEq] at htable
  obtain ⟨k, ph, hk, -⟩ := Due.at hd
  have hp : Passing (after s ((past ++ x) ++ [.serves t U view])).tasks t ⟨U, view, .fields⟩ := by
    rw [after_concat]
    exact ⟨k, hk.perform_moves rfl⟩
  rw [List.append_cons] at h
  obtain ⟨rows, r, hr⟩ := h.published_of_passing (List.mem_append_left _ hpast) hT hm hp
    htable.symm (fun rows r => by rw [List.getLast?_concat]; simp) fun o ho => hc o (by simp [ho])
  exact ⟨fun g hg => h₁.rowless_of_due hd g (List.mem_append_left _ hg), rows, r, by simp [hr]⟩

/-- If every pass since a change was closed with its report, a pass that got its rows since has
shown one exactly when a pass began since, or the one under way then had no rows yet. -/
theorem Course.published_rowless_iff (h : Course s (before ++ .changes :: later) m)
    {T : OpenTable} {o : Nat} (ho : .attaches o T ∈ before) (hT : m.table = some T)
    (hm : m.tasks = []) (hc : ∀ t o, .closes t o ∈ later → ∃ r, o = .report r) :
    (∃ t table rows r, .publishes t table rows r ∈ later ∧ Rowless before t) ↔
      (∃ t table view, .serves t table view ∈ later) ∨
        ∃ t p, Passing (after s before).tasks t p ∧ p.table = T ∧ Rowless before t := by
  have h' := List.append_cons before Act.changes later ▸ h
  have ho' : .attaches o T ∈ before ++ [.changes] := List.mem_append_left _ ho
  constructor
  · rintro ⟨t, table, rows, r, hmem, hr⟩
    obtain ⟨view, hs⟩ | ⟨p, hp, ht⟩ := h.begun_of_publishes ho hT hmem
    · exact Or.inl ⟨t, table, view, hs⟩
    · exact Or.inr ⟨t, p, hp, ht, hr⟩
  · rintro (⟨t, table, view, hs⟩ | ⟨t, p, hp, ht, hr⟩)
    · obtain ⟨hr, rows, r, hshown⟩ := h'.published_of_serves ho' hT hm hs (hc t)
      exact ⟨t, T, rows, r, hshown, fun g hg => hr g (List.mem_append_left _ hg)⟩
    · have hp' : Passing (after s (before ++ [.changes])).tasks t p := by
        rw [after_concat]
        exact hp
      obtain ⟨rows, r, hshown⟩ := h'.published_of_passing ho' hT hm hp' ht (by simp) (hc t)
      exact ⟨t, T, rows, r, hshown, hr⟩

/-- When a change is over and the monitor has come to rest on the same table, a trigger has come
since. The report that is shown last is on fresh rows exactly when a pass that got its rows since
has shown one. If every pass since was closed with its report, that is so exactly when a trigger
since was heeded, or the pass under way at the change had no rows yet. -/
theorem change_seen_iff (s : MonitorSettings) (es : List MonitorEvent) {before later : List Act}
    {o : Nat} {T : OpenTable} (h : history s es = before ++ .changes :: later)
    (hq : (run s es).Quiet) (hT : (run s es).table = some T) (ho : .attaches o T ∈ before) :
    ((∃ a ∈ later, a.isTrigger = true) ∨ ∃ t, .abandons t ∈ later) ∧
      (ShownFresh (before ++ [.changes]) later ↔
        ∃ t table rows r, .publishes t table rows r ∈ later ∧ Rowless before t) ∧
      ((∀ t o, .closes t o ∈ later → ∃ r, o = .report r) →
        (ShownFresh (before ++ [.changes]) later ↔
          (∃ t table view, .serves t table view ∈ later) ∨
            ∃ t p, Passing (after s before).tasks t p ∧ p.table = T ∧ Rowless before t)) := by
  have hc := course_run s es
  rw [h] at hc
  refine ⟨?_, hc.shownFresh_iff, fun hr => ?_⟩
  · have hrun : (after s before).running = true := hc.of_split.2
    rw [List.append_cons] at hc
    obtain ⟨-, hh, hs⟩ := hc.table_throughout (List.mem_append_left _ ho) hT
    have hp : Pending (after s (before ++ [.changes])) := by
      rw [after_concat]
      left
      simp [Act.perform, Act.change, armed, hrun]
    have hr : (after s (before ++ [.changes])).running = true := by
      rw [after_concat]
      exact hrun
    obtain hp | ht := hc.pending_until hr hp hh hs
    · obtain ht | ⟨t, hk⟩ := hp
      · exact absurd hq.disarmed ht
      · simp [At, hq.free] at hk
    · exact ht
  · rw [hc.shownFresh_iff, hc.published_rowless_iff ho hT hq.free hr]

/-- A change after the first pass. The timer runs down, and another pass follows. -/
def heeded : List MonitorEvent :=
  [.request .start, .begins 0, .replied 0 (.selection ⟨.text "orders", .null⟩),
    .replied 0 (.opened true), .replied 0 (.table (.fields [])),
    .replied 0 (.table (.page ⟨[], false, .null⟩)), .recordsChanged, .elapsed 0, .begins 1,
    .replied 1 (.table (.fields [])), .replied 1 (.table (.page ⟨[], false, .null⟩))]

theorem heeded_fresh :
    ∃ before later, history watching heeded = before ++ .changes :: later ∧
      (run watching heeded).Quiet ∧ ShownFresh (before ++ [.changes]) later := by
  let acts := history watching heeded
  have h : acts = acts.take 9 ++ .changes :: acts.drop 10 := rfl
  have hq : (run watching heeded).Quiet := ⟨rfl, rfl, rfl, rfl⟩
  obtain ⟨-, hw, -⟩ := change_seen_iff watching heeded (T := ⟨0, .text "orders", true⟩) (o := 0) h
    hq rfl (List.mem_of_getElem? (i := 3) rfl)
  refine ⟨_, _, h, hq, hw.mpr ⟨1, _, _, _, List.mem_of_getElem? (i := 4) rfl, ?_⟩⟩
  have hr : (acts.take 9).all (fun b => !b.getsRows 1) = true := rfl
  simpa [Rowless] using hr

/-- A change while a pass waits for its rows. The timer runs down before they arrive. -/
def unheeded : List MonitorEvent :=
  [.request .start, .begins 0, .replied 0 (.selection ⟨.text "orders", .null⟩),
    .replied 0 (.opened true), .replied 0 (.table (.fields [])), .recordsChanged, .elapsed 0,
    .begins 1, .replied 0 (.table (.page ⟨[], false, .null⟩))]

/-- The monitor comes to rest with a report on rows that were asked for before the change. -/
theorem unheeded_stale :
    ∃ before later, history watching unheeded = before ++ .changes :: later ∧
      (run watching unheeded).Quiet ∧
      (∃ T, (run watching unheeded).table = some T ∧ .attaches 0 T ∈ before) ∧
      ¬ ShownFresh (before ++ [.changes]) later := by
  let acts := history watching unheeded
  have h : acts = acts.take 6 ++ .changes :: acts.drop 7 := rfl
  refine ⟨_, _, h, ⟨rfl, rfl, rfl, rfl⟩, ⟨_, rfl, List.mem_of_getElem? (i := 3) rfl⟩, ?_⟩
  rintro ⟨x, t, table, rows, r, y, hx, -, u, q, -, p, columns, hl⟩
  have hn : (acts.drop 7).any Act.isLoad = false := rfl
  rw [hx, List.any_eq_false] at hn
  simpa [Act.isLoad] using hn (.loads u p columns) (by simp [hl])

end Monitor

end TableAudit
