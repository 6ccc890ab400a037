import TableAudit.Proofs.Monitor.Passes

/-!
# Where rows come from

A pass that checks rows checks those that were read last, by itself or by an earlier pass whose
rows were kept. Kept rows are as new as the last invalidation: nothing was forgotten since the
pass that read them began to.
-/

namespace TableAudit

namespace Act

/-- The task that has read its rows, its pass, and the rows. -/
def read? : Act → Option (Nat × PassRun × List Row)
  | .reads t p _ _ rows => some (t, p, rows)
  | _ => none

/-- Whether rows and checks are forgotten. -/
def invalidates : Act → Bool
  | .forgets => true
  | .changes => true
  | .switches _ => true
  | _ => false

end Act

namespace Session

theorem keepRows_generation (x : Session) (g : Nat) (rows : List Row) :
    (x.keepRows g rows).generation = x.generation := by
  simp only [keepRows]
  split <;> rfl

theorem checkFor_kept (x : Session) (columnId rule : String) (marks : Option (List Mark))
    (make : Except Rule.Refusal Check) :
    (x.checkFor columnId rule marks make).2.rows = x.rows ∧
      (x.checkFor columnId rule marks make).2.generation = x.generation := by
  simp only [checkFor, checkAcross, id_eq, keepCheck]
  split
  · simp
  · split
    · simp
    · simp

end Session

theorem ColumnRun.turn_kept (o : PassOptions) (rows : List Row) (x : Session) (r : ColumnRun) :
    (r.turn o rows x).session.rows = x.rows ∧
      (r.turn o rows x).session.generation = x.generation := by
  cases r with
  | waiting c =>
      simp only [ColumnRun.turn, begin]
      split
      · simp
      · simp
      · simp
      · simp only [beginRule]
        split <;> exact Session.checkFor_kept ..
  | _ => simp [ColumnRun.turn]

namespace Pass

theorem turn_kept (p : Pass) (x : Session) (i : Nat) :
    (p.turn x i).session.rows = x.rows ∧ (p.turn x i).session.generation = x.generation := by
  simp only [turn]
  split
  · simp
  · split
    · exact ColumnRun.turn_kept ..
    · simp

theorem turn_rows (p : Pass) (x : Session) (i : Nat) : (p.turn x i).pass.rows = p.rows := by
  simp only [turn]
  split
  · rfl
  · split <;> rfl

end Pass

namespace Monitor

variable {s : MonitorSettings} {m : Monitor} {past : List Act} {a : Act} {t u : Nat}
variable {p q : PassRun}

theorem perform_generation (a : Act) (m : Monitor) :
    (a.perform m).session.generation =
      if a.invalidates then m.session.generation + 1 else m.session.generation := by
  cases a with
  | elapses => cases h : m.running <;> simp [Act.perform, Act.change, Act.invalidates, h]
  | givesUp t e => cases e <;> rfl
  | turns t p pass i => exact (pass.turn_kept m.session i).2
  | reads t p columns g rows => exact Session.keepRows_generation ..
  | _ => rfl

theorem perform_rows (a : Act) (m : Monitor) :
    (a.perform m).session.rows =
      if a.invalidates then none
      else match a with
        | .reads _ _ _ g rows => if m.session.generation = g then some rows else m.session.rows
        | _ => m.session.rows := by
  cases a with
  | elapses => cases h : m.running <;> simp [Act.perform, Act.change, Act.invalidates, h]
  | givesUp t e => cases e <;> rfl
  | turns t p pass i => exact (pass.turn_kept m.session i).1
  | reads t p columns g rows =>
      simp only [Act.perform, Act.change, Session.keepRows, Act.invalidates]
      split <;> simp [*]
  | _ => rfl

/-- A task began to read rows, and nothing was forgotten since. -/
def Unspoiled (past : List Act) (t : Nat) : Prop :=
  ∃ x p columns y, past = x ++ .loads t p columns :: y ∧ ∀ b ∈ y, b.invalidates = false

/-- A task got rows of which the reading was unspoiled then. -/
def Fetched (past : List Act) (t reader : Nat) : Prop :=
  ∃ x g y, past = x ++ g :: y ∧ g.getsRows t = true ∧ Unspoiled (x ++ [g]) reader

theorem Unspoiled.concat (h : Unspoiled past t) (ha : a.invalidates = false) :
    Unspoiled (past ++ [a]) t := by
  obtain ⟨x, p, columns, y, rfl, hy⟩ := h
  refine ⟨x, p, columns, y ++ [a], by simp, fun b hb => ?_⟩
  simp only [List.mem_append, List.mem_singleton] at hb
  obtain hb | rfl := hb
  · exact hy b hb
  · exact ha

theorem Fetched.concat (h : Fetched past t u) (a : Act) : Fetched (past ++ [a]) t u := by
  obtain ⟨x, g, y, rfl, hg, hx⟩ := h
  exact ⟨x, g, y ++ [a], by simp, hg, hx⟩

theorem Fetched.self {columns : List Column} (past : List Act) (t : Nat) (p : PassRun) :
    Fetched (past ++ [.loads t p columns]) t t :=
  ⟨past, .loads t p columns, [], rfl, by simp [Act.getsRows], past, p, columns, [], rfl, by simp⟩

/-- What is known of the rows that are there. -/
structure RowsKnown (past : List Act) (m : Monitor) : Prop where
  reading : ∀ t p columns g r, Passing m.tasks t p → p.stage = .reading columns g r →
    m.session.rows = none ∧ g ≤ m.session.generation ∧ Fetched past t t ∧
      (g = m.session.generation → Unspoiled past t)
  kept : ∀ rows, m.session.rows = some rows →
    ∃ u q, lastOf Act.read? past = some (u, q, rows) ∧ Unspoiled past u
  checking : ∀ t p pass, Passing m.tasks t p → p.stage = .checking pass →
    ∃ u q, lastOf Act.read? past = some (u, q, pass.rows) ∧ Fetched past t u

theorem RowsKnown.initial (s : MonitorSettings) : RowsKnown [] (Monitor.initial s) where
  reading := by simp [Passing]
  kept := by simp [Monitor.initial, Session.fresh]
  checking := by simp [Passing]

theorem read?_of_other (h : Course s past m) (ha : a.Admissible past m)
    (hp : Passing m.tasks t p) (hn : ∀ q, a.continues? ≠ some (t, q)) : a.read? = none := by
  cases a with
  | reads u q columns g rows =>
      obtain ⟨_, _, _, hq, _⟩ := ha
      obtain ⟨rfl, rfl⟩ := h.passing_eq hq hp
      exact absurd rfl (hn q)
  | _ => rfl

theorem perform_rows_of_none (a : Act) (ha : a.read? = none) (hm : m.session.rows = none) :
    (a.perform m).session.rows = none := by
  rw [perform_rows]
  split
  · rfl
  · split
    · simp [Act.read?] at ha
    · exact hm

namespace RowsKnown

variable (h : Course s past m) (ha : a.Admissible past m) (ih : RowsKnown past m)

include h ha ih

theorem reading_act {columns : List Column} {g : Nat} {r : Reading}
    (hq : Passing (a.perform m).tasks t q) (hs : q.stage = .reading columns g r) :
    (a.perform m).session.rows = none ∧ g ≤ (a.perform m).session.generation ∧
      Fetched (past ++ [a]) t t ∧
      (g = (a.perform m).session.generation → Unspoiled (past ++ [a]) t) := by
  obtain ⟨hp, -, hn⟩ | ⟨p, hc, hp, hm, -⟩ | ⟨table, view, -, rfl⟩ := passing_of_perform ha hq
  · obtain ⟨hr, hg, hf, hu⟩ := ih.reading t q columns g r hp hs
    refine ⟨perform_rows_of_none a (read?_of_other h ha hp hn) hr, ?_, hf.concat a, fun he => ?_⟩
    · rw [perform_generation]
      split <;> omega
    · rw [perform_generation] at he
      split at he
      · omega
      next hi => exact (hu he).concat (by simpa using hi)
  · cases a with
    | loads v p' columns' =>
        obtain ⟨rfl, rfl⟩ : v = t ∧ p' = p := by simpa [Act.continues?] using hc
        obtain ⟨-, rfl⟩ : v = v ∧ _ = q := by simpa [Act.moves?] using hm
        obtain ⟨rfl, rfl, rfl⟩ : columns' = columns ∧ m.session.generation = g ∧ .start = r := by
          simpa using hs
        exact ⟨ha.1, Nat.le_refl _, .self past v p',
          fun _ => ⟨past, p', columns', [], rfl, by simp⟩⟩
    | pages v p' columns' g' r' =>
        obtain ⟨rfl, rfl⟩ : v = t ∧ p' = p := by simpa [Act.continues?] using hc
        obtain ⟨-, rfl⟩ : v = v ∧ _ = q := by simpa [Act.moves?] using hm
        obtain ⟨rfl, rfl, rfl⟩ : columns' = columns ∧ g' = g ∧ r' = r := by simpa using hs
        obtain ⟨r₀, hs₀, -⟩ := ha
        obtain ⟨hr, hg, hf, hu⟩ := ih.reading v p' columns' g' r₀ hp hs₀
        exact ⟨hr, hg, hf.concat _, fun he => (hu he).concat rfl⟩
    | takes | reads | turns =>
        simp only [Act.moves?, Option.some.injEq, Prod.mk.injEq, Phase.passing.injEq] at hm
        rw [← hm.2] at hs
        simp [heldPass] at hs
    | _ => simp [Act.continues?] at hc
  · simp at hs

omit h in
theorem kept_act {rows : List Row} (hr : (a.perform m).session.rows = some rows) :
    ∃ u q, lastOf Act.read? (past ++ [a]) = some (u, q, rows) ∧ Unspoiled (past ++ [a]) u := by
  rw [perform_rows] at hr
  split at hr
  · simp at hr
  next hi =>
    rw [Bool.not_eq_true] at hi
    cases a with
    | reads t p columns g rows' =>
        obtain ⟨r, _, hs, hp, _⟩ := ha
        obtain ⟨hn, -, -, hu⟩ := ih.reading t p columns g r hp hs
        simp only [hn] at hr
        split at hr
        next hg =>
          obtain rfl := Option.some.inj hr
          exact ⟨t, p, by simp [lastOf_concat, Act.read?], (hu hg.symm).concat hi⟩
        next => simp at hr
    | _ =>
        obtain ⟨u, q, hl, hu⟩ := ih.kept rows hr
        exact ⟨u, q, by simp [lastOf_concat, Act.read?, hl], hu.concat hi⟩

theorem checking_act {pass : Pass} (hq : Passing (a.perform m).tasks t q)
    (hs : q.stage = .checking pass) :
    ∃ u r, lastOf Act.read? (past ++ [a]) = some (u, r, pass.rows) ∧
      Fetched (past ++ [a]) t u := by
  obtain ⟨hp, -, hn⟩ | ⟨p, hc, hp, hm, -⟩ | ⟨table, view, -, rfl⟩ := passing_of_perform ha hq
  · obtain ⟨u, r, hl, hf⟩ := ih.checking t q pass hp hs
    exact ⟨u, r, by simp [lastOf_concat, read?_of_other h ha hp hn, hl], hf.concat a⟩
  · cases a with
    | takes v p' columns rows =>
        obtain ⟨rfl, rfl⟩ : v = t ∧ p' = p := by simpa [Act.continues?] using hc
        obtain ⟨-, rfl⟩ : v = v ∧ _ = q := by simpa [Act.moves?] using hm
        obtain rfl := PassStage.checking.inj hs
        obtain ⟨u, r, hl, hu⟩ := ih.kept rows ha.1
        refine ⟨u, r, by simp [lastOf_concat, Act.read?, hl, Pass.start], ?_⟩
        exact ⟨past, _, [], rfl, by simp [Act.getsRows], hu.concat rfl⟩
    | reads v p' columns g rows =>
        obtain ⟨rfl, rfl⟩ : v = t ∧ p' = p := by simpa [Act.continues?] using hc
        obtain ⟨-, rfl⟩ : v = v ∧ _ = q := by simpa [Act.moves?] using hm
        obtain rfl := PassStage.checking.inj hs
        obtain ⟨r, _, hr, hp', _⟩ := ha
        obtain ⟨-, -, hf, -⟩ := ih.reading v p' columns g r hp' hr
        exact ⟨v, p', by simp [lastOf_concat, Act.read?, Pass.start], hf.concat _⟩
    | turns v p' pass' i =>
        obtain ⟨rfl, rfl⟩ : v = t ∧ p' = p := by simpa [Act.continues?] using hc
        obtain ⟨-, rfl⟩ : v = v ∧ _ = q := by simpa [Act.moves?] using hm
        obtain rfl := PassStage.checking.inj hs
        obtain ⟨u, r, hl, hf⟩ := ih.checking v p' pass' hp ha.1
        exact ⟨u, r, by simp [lastOf_concat, Act.read?, hl, Pass.turn_rows], hf.concat _⟩
    | loads | pages =>
        simp only [Act.moves?, Option.some.injEq, Prod.mk.injEq, Phase.passing.injEq] at hm
        rw [← hm.2] at hs
        simp at hs
    | _ => simp [Act.continues?] at hc
  · simp at hs

end RowsKnown

/-- The rows that are there are known after every history. -/
theorem Course.rows_known (h : Course s past m) : RowsKnown past m := by
  induction h with
  | initial => exact RowsKnown.initial s
  | act a h ha ih =>
      exact ⟨fun _ _ _ _ _ hq hs => ih.reading_act h ha hq hs, fun _ hr => ih.kept_act ha hr,
        fun _ _ _ hq hs => ih.checking_act h ha hq hs⟩

end Monitor

end TableAudit

/-!
## Provenance of reports

A report that is shown is one of the table that is attached then. Its rows may have been read by
an earlier pass and kept, and the store of rows does not know from which table they are. So the
rows are of that table exactly when the pass that read them began after the table was attached.
-/

namespace TableAudit

namespace Monitor

variable {s : MonitorSettings} {m : Monitor} {past : List Act} {a : Act} {t : Nat}

/-- Where the rows of a report on a table come from. -/
structure Provenance (past : List Act) (table : OpenTable) (rows : List Row) where
  /-- The task that attached the table, and the selection that it was told. -/
  opener : Nat
  selection : Selection
  /-- The task that read the rows, and its pass. -/
  reader : Nat
  pass : PassRun
  /-- What had happened when that pass began, and what happened since. -/
  begun : List Act
  since : List Act
  opened : .attaches opener table ∈ past
  selected : .selects opener selection ∈ past
  read : lastOf Act.read? past = some (reader, pass, rows)
  began : past = begun ++ .serves reader pass.table pass.viewId :: since

namespace Provenance

variable {table : OpenTable} {rows : List Row}

/-- The rows were read from the table, under the view of the selection it was attached with. -/
def Coherent (w : Provenance past table rows) : Prop :=
  w.pass.table = table ∧ w.pass.viewId = w.selection.viewId

/-- The table was attached when the pass that read the rows began, and the selection that was
stored then had the view of the selection that the table was attached with. -/
def Timely (w : Provenance past table rows) : Prop :=
  .attaches w.opener table ∈ w.begun ∧
    ((lastOf Act.selection? w.begun).getD Selection.none).viewId = w.selection.viewId

theorem table_eq_iff (h : Course s past m) (hm : m.table = some table)
    (w : Provenance past table rows) :
    w.pass.table = table ↔ .attaches w.opener table ∈ w.begun := by
  have hb := w.began ▸ h
  obtain ⟨h₁, -, hserved, -⟩ := hb.of_split
  obtain ⟨hlast, v, hv⟩ := h₁.table_newest hserved
  have hbegun : w.begun <+: past := ⟨_, w.began.symm⟩
  have hpast := hbegun.subset hv
  constructor
  · intro he
    obtain ⟨rfl, -⟩ := h.attaches_unique hpast w.opened (by rw [he])
    rwa [he] at hv
  · intro ho
    -- the table is the newest at the end, so it was the newest already when the pass began
    have hnew := (h.table_newest hm).1
    have hold := h₁.serial_lt ho
    have hle := after_nextTable_le s w.begun
      (.serves w.reader w.pass.table w.pass.viewId :: w.since)
    rw [← w.began, ← h.eq_after] at hle
    exact (h.attaches_unique hpast w.opened (by omega)).2

theorem viewId_eq (h : Course s past m) (w : Provenance past table rows) :
    w.pass.viewId = ((lastOf Act.selection? w.begun).getD Selection.none).viewId := by
  obtain ⟨h₁, -, -, hview, -⟩ := (w.began ▸ h).of_split
  rw [hview, h₁.selection_eq]

/-- Rows that a pass checks have a provenance. -/
theorem exists_of_checking (h : Course s past m) {opener : Nat}
    (ho : .attaches opener table ∈ past) {p : PassRun} {pass : Pass}
    (hp : Passing m.tasks t p) (hc : p.stage = .checking pass) :
    Nonempty (Provenance past table pass.rows) := by
  obtain ⟨sel, hsel, -⟩ := h.attaches_selected ho
  obtain ⟨u, q, hl, -⟩ := h.rows_known.checking t p pass hp hc
  obtain ⟨x, a, y, hx, ha, -⟩ := lastOf_eq_some.mp hl
  cases a with
  | reads v q' columns g rows' =>
      obtain ⟨rfl, rfl, rfl⟩ : v = u ∧ q' = q ∧ rows' = pass.rows := by simpa [Act.read?] using ha
      obtain ⟨h₁, r, _, -, hq, -⟩ := (hx ▸ h).of_split
      obtain ⟨b, z, rfl⟩ := h₁.passing_served hq
      exact ⟨⟨opener, sel, v, q', b, z ++ .reads v q' columns g pass.rows :: y, ho, hsel, hl,
        by simp [hx]⟩⟩
  | _ => simp [Act.read?] at ha

end Provenance

@[simp] theorem publish_mem_showing {d d' : Display} :
    .publish d ∈ m.showing d' ↔ m.settings.listener.isSome = true ∧ d = d' := by
  simp only [showing]
  split <;> simp_all

@[simp] theorem publish_not_mem_disarming {d : Display} : .publish d ∉ m.disarming := by
  simp [disarming]

@[simp] theorem publish_not_mem_arming {d : Display} : .publish d ∉ m.arming := by
  simp only [arming]
  split <;> simp

@[simp] theorem publish_not_mem_detaching {d : Display} : .publish d ∉ m.detaching := by
  simp [detaching]

theorem report_of_effect {d : Display} {r : Report} (ha : a.Admissible past m)
    (hd : .publish d ∈ a.effects m) (hr : d.report = some r) :
    ∃ t table rows, a = .publishes t table rows r := by
  cases a with
  | publishes t table rows r' =>
      obtain ⟨-, rfl⟩ := publish_mem_showing.mp hd
      obtain rfl : r' = r := by simpa using hr
      exact ⟨t, table, rows, rfl⟩
  | shows message =>
      obtain ⟨-, rfl⟩ := publish_mem_showing.mp hd
      simp at hr
  | givesUp t e =>
      cases e with
      | failure message =>
          obtain ⟨-, rfl⟩ : m.settings.listener.isSome = true ∧
              d = ⟨none, some (attachText message)⟩ := by
            simpa [Act.effects] using hd
          simp at hr
      | _ => simp [Act.effects] at hd
  | lacks t =>
      obtain ⟨-, rfl⟩ : m.settings.listener.isSome = true ∧ d = ⟨none, some noTableText⟩ := by
        cases h : m.switchPending <;> simpa [Act.effects, h] using hd
      simp at hr
  | populates t ph e =>
      obtain ⟨-, ⟨c, rfl⟩ | ⟨w, rfl⟩, -⟩ := ha <;> simp [Act.effects] at hd
  | closes t o => cases h : m.switchPending <;> simp [Act.effects, h] at hd
  | elapses => cases h : m.running <;> simp [Act.effects, h] at hd
  | starts t => cases h : m.settings.watchesSelection <;> simp [Act.effects, h] at hd
  | halts t => cases h : m.ownTasks.isEmpty <;> simp [Act.effects, h] at hd
  | selects t x => cases h : x.tableId.isTruthy <;> simp [Act.effects, h] at hd
  | attaches t table => cases h : table.observable <;> simp [Act.effects, h] at hd
  | _ => simp [Act.effects] at hd

/-- A report that the listener is told of was shown by a pass. -/
theorem Course.report_shown (h : Course s past m) {d : Display} {r : Report}
    (hd : .publish d ∈ m.outbox) (hr : d.report = some r) :
    ∃ t table rows, .publishes t table rows r ∈ past := by
  induction h with
  | initial => simp [Monitor.initial] at hd
  | @act past m a h ha ih =>
      simp only [Act.perform, List.mem_append] at hd
      obtain hd | hd := hd
      · obtain ⟨t, table, rows, hmem⟩ := ih hd
        exact ⟨t, table, rows, List.mem_append_left _ hmem⟩
      · obtain ⟨t, table, rows, rfl⟩ := report_of_effect ha hd hr
        exact ⟨t, table, rows, by simp⟩

/-- Whenever a report is shown, its table is the one that is attached and the one whose columns
were checked. Its rows are those of that table under the view it was attached with exactly when
they were read in time. -/
theorem report_coherent_iff (s : MonitorSettings) (es : List MonitorEvent) {before rest : List Act}
    {t : Nat} {table : OpenTable} {rows : List Row} {r : Report}
    (h : history s es = before ++ .publishes t table rows r :: rest) :
    (after s before).table = some table ∧ (∃ view, .serves t table view ∈ before) ∧
      (∃ pass : Pass, pass.rows = rows ∧ pass.report? s.timestamp = some r) ∧
      Nonempty (Provenance before table rows) ∧
      ∀ w : Provenance before table rows, w.Coherent ↔ w.Timely := by
  have hc := course_run s es
  rw [h] at hc
  obtain ⟨h₁, hsame, p, pass, rfl, hstage, hp, rfl, hr⟩ := hc.of_split
  obtain ⟨x, y, hserved⟩ := h₁.passing_served hp
  obtain ⟨-, -, hx, -⟩ := (hserved ▸ h₁).of_split
  obtain ⟨h₂, -⟩ := (hserved ▸ h₁).of_split
  obtain ⟨-, o, ho⟩ := h₂.table_newest hx
  replace ho : .attaches o p.table ∈ before := by
    rw [hserved]
    exact List.mem_append_left _ ho
  have htable := (h₁.sameTable_iff ho).mp hsame
  refine ⟨htable, ⟨p.viewId, by simp [hserved]⟩, ⟨pass, rfl, ?_⟩,
    Provenance.exists_of_checking h₁ ho hp hstage, fun w => ?_⟩
  · rw [← h₁.settings_eq]
    exact hr
  · rw [Provenance.Coherent, Provenance.Timely, w.table_eq_iff h₁ htable, w.viewId_eq h₁]

/-- A start and a pass that nothing interferes with. -/
def undisturbed : List MonitorEvent :=
  [.request .start, .begins 0, .replied 0 (.selection ⟨.text "orders", .null⟩),
    .replied 0 (.opened true), .replied 0 (.table (.fields [])),
    .replied 0 (.table (.page ⟨[⟨"r1", [], none, none⟩], false, .null⟩))]

/-- The first table of a run. -/
def orders : OpenTable := ⟨0, .text "orders", true⟩

theorem undisturbed_coherent :
    ∃ before rest rows r,
      history watching undisturbed = before ++ .publishes 0 orders rows r :: rest ∧
        rows.length = 1 ∧ ∃ w : Provenance before orders rows, w.Coherent := by
  let acts := history watching undisturbed
  let w : Provenance (acts.take 7) orders [⟨1, "r1", [], none, none⟩] :=
    { opener := 0
      selection := ⟨.text "orders", .null⟩
      reader := 0
      pass := ⟨orders, .null, .reading [] 0 .start⟩
      begun := acts.take 4
      since := (acts.take 7).drop 5
      opened := List.mem_of_getElem? (i := 3) rfl
      selected := List.mem_of_getElem? (i := 2) rfl
      read := rfl
      began := rfl }
  have h : acts = acts.take 7 ++ .publishes 0 orders _ _ :: acts.drop 8 := rfl
  obtain ⟨-, -, -, -, hw⟩ := report_coherent_iff watching undisturbed h
  exact ⟨_, _, _, _, h, rfl, w, (hw w).mpr ⟨List.mem_of_getElem? (i := 3) rfl, rfl⟩⟩

/-- The columns of a table arrive after the selection changed and before the next table is open. -/
def lateFields : List MonitorEvent :=
  [.request .start, .begins 0, .replied 0 (.selection ⟨.text "orders", .null⟩),
    .replied 0 (.opened true), .selectionChanged, .begins 1,
    .replied 1 (.selection ⟨.text "invoices", .null⟩), .replied 0 (.table (.fields [])),
    .replied 0 (.table (.page ⟨[⟨"r1", [], none, none⟩], false, .null⟩)),
    .replied 1 (.opened true), .replied 1 (.table (.fields []))]

/-- The second table of a run. -/
def invoices : OpenTable := ⟨1, .text "invoices", true⟩

/-- The report on the second table is made from a row of the first one. -/
theorem lateFields_incoherent :
    ∃ before rest rows r,
      history watching lateFields = before ++ .publishes 1 invoices rows r :: rest ∧
        rows.length = 1 ∧ ∃ w : Provenance before invoices rows, ¬ w.Coherent := by
  let acts := history watching lateFields
  let w : Provenance (acts.take 14) invoices [⟨1, "r1", [], none, none⟩] :=
    { opener := 1
      selection := ⟨.text "invoices", .null⟩
      reader := 0
      pass := ⟨orders, .null, .reading [] 1 .start⟩
      begun := acts.take 4
      since := (acts.take 14).drop 5
      opened := List.mem_of_getElem? (i := 11) rfl
      selected := List.mem_of_getElem? (i := 7) rfl
      read := rfl
      began := rfl }
  have h : acts = acts.take 14 ++ .publishes 1 invoices _ _ :: acts.drop 15 := rfl
  exact ⟨_, _, _, _, h, rfl, w, fun hw => by simpa [w, orders, invoices] using hw.1⟩

end Monitor

end TableAudit
