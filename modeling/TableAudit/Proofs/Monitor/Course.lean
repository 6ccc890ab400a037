import TableAudit.Proofs.Monitor.Turn

/-!
# Runs as courses

Every operation of a monitor is the performance of its acts, and each of them is admissible when
its turn comes. So every run is a course of its history (`course_run`): to show something of all
runs it is enough to look at one admissible act at a time.
-/

namespace TableAudit

namespace Monitor

variable {s : MonitorSettings} {m : Monitor} {past : List Act} {t : Nat}

theorem cancelTimer_eq (m : Monitor) :
    m.cancelTimer = { m with timer := none, outbox := m.outbox ++ m.disarming } := by
  cases m with
  | mk _ _ _ _ _ _ _ _ _ timer => cases timer <;> simp [cancelTimer, disarming, emit]

theorem armTimer_eq (m : Monitor) :
    m.armTimer =
      { m with timer := m.armed, nextTimer := m.armedNext, outbox := m.outbox ++ m.arming } := by
  by_cases h : m.running = true
  · simp [armTimer, armed, armedNext, arming, disarming, cancelTimer_eq, emit, h]
  · simp only [armTimer, armed, armedNext, arming, if_neg h, List.append_nil]

theorem foldl_emit {α : Type} (f : α → Effect) (xs : List α) (m : Monitor) :
    xs.foldl (fun m x => m.emit (f x)) m = { m with outbox := m.outbox ++ xs.map f } := by
  induction xs generalizing m with
  | nil => simp
  | cons x xs ih => rw [List.foldl_cons, ih]; simp [emit]

theorem detach_eq (m : Monitor) :
    m.detach =
      { m with tableSubscriptions := [], table := none, outbox := m.outbox ++ m.detaching } := by
  simp [detach, detaching, foldl_emit]

theorem publish_eq (d : Display) (m : Monitor) :
    (m.publish d).2 =
      { m with display := d, published := m.publishedNext, outbox := m.outbox ++ m.showing d } := by
  cases h : m.settings.listener <;> simp [publish, publishedNext, showing, emit, h]

theorem endPass_eq (t : Nat) (o : TaskOutcome) (m : Monitor) :
    m.endPass t o = (Act.closes t o).perform m := by
  cases h : m.switchPending with
  | false => simp [endPass, Act.perform, Act.change, Act.effects, finish, emit, without, h]
  | true =>
      simp [endPass, Act.perform, Act.change, Act.effects, finish, emit, without, armTimer_eq,
        armed, armedNext, arming, disarming, h]

theorem start_eq (h : m.running = false) : m.start t = (Act.starts t).perform m := by
  cases hw : m.settings.watchesSelection <;> cases hu : m.settings.unsubscribes <;>
    simp [start, Act.perform, Act.change, Act.effects, subscribe, ask, setPhase, emit,
      withPhase, h, hw, hu]

theorem stop_eq (t : Nat) (m : Monitor) : m.stop t = (Act.halts t).perform m := by
  simp only [stop, cancelTimer_eq, detach_eq, foldl_emit]
  cases hs : m.selectionSubscription <;> cases ho : m.ownTasks.isEmpty <;>
    simp only [ownTasks] at ho <;>
    simp only [Act.perform, Act.change, Act.effects, ownTasks, emit, hs, ho] <;>
    simp [finish, setPhase, emit, withPhase, without, disarming, detaching]

theorem switch_eq (t : Nat) (m : Monitor) : m.switch t = (Act.switches t).perform m := by
  simp [switch, cancelTimer_eq, detach_eq, invalidate, ask, setPhase, emit, Act.perform,
    Act.change, Act.effects, withPhase, disarming, detaching]

theorem subscribeRecords_eq (table : OpenTable) (m : Monitor) :
    m.subscribeRecords table =
      { m with
        tableSubscriptions :=
          if m.settings.unsubscribes then recordSubscriptions m.nextSubscription table else []
        nextSubscription := m.nextSubscription + 3
        outbox := m.outbox ++
          (recordSubscriptions m.nextSubscription table).map Effect.subscribe } := by
  cases h : m.settings.unsubscribes <;>
    simp [subscribeRecords, subscribe, recordSubscriptions, emit, h]

theorem without_withPhase (t : Nat) (ph : Phase) (xs : List Task) :
    without t (withPhase t ph xs) = without t xs := by
  induction xs with
  | nil => rfl
  | cons x xs ih =>
      simp only [without, withPhase, List.map_cons] at ih ⊢
      by_cases h : x.number = t <;> simp only [h, if_true, if_false, ne_eq, decide_not,
        List.filter_cons, decide_true, decide_false, Bool.not_true, Bool.not_false] at ih ⊢ <;>
        simp [ih]

theorem withPhase_withPhase (t : Nat) (ph ph' : Phase) (xs : List Task) :
    withPhase t ph' (withPhase t ph xs) = withPhase t ph' xs := by
  simp only [withPhase, List.map_map]
  apply List.map_congr_left
  intro x _
  by_cases h : x.number = t <;> simp [h]

theorem find_withPhase (t u : Nat) (ph : Phase) (xs : List Task) :
    (withPhase t ph xs).find? (·.number = u) =
      (xs.find? (·.number = u)).map fun x =>
        if x.number = t then { x with phase := ph } else x := by
  rw [withPhase, List.find?_map]
  congr 2
  funext x
  by_cases h : x.number = t <;> simp [h]

theorem publish_outcome (d : Display) (o : TaskOutcome) (m : Monitor) :
    (if (m.publish d).1 then .listenerFailed else o) = m.shownOutcome o := by
  cases h : m.settings.listener <;> simp [publish, shownOutcome, emit, h]

theorem failPass_eq (t : Nat) (table : Option OpenTable) (message : String) (m : Monitor) :
    m.failPass t table message =
      if sameTable m.table table then
        (Act.closes t (m.shownOutcome .nothing)).perform
          ((Act.shows message).perform m)
      else (Act.closes t .nothing).perform m := by
  simp only [failPass, endPass_eq, publish_eq, publish_outcome]
  rfl

theorem reportPass_eq (t : Nat) (table : OpenTable) (rows : List Row) (r : Report) (m : Monitor) :
    m.reportPass t table r =
      if sameTable m.table (some table) then
        (Act.closes t (m.shownOutcome (.report r))).perform
          ((Act.publishes t table rows r).perform m)
      else (Act.closes t (.report r)).perform m := by
  simp only [reportPass, endPass_eq, publish_eq, publish_outcome]
  rfl

theorem lacks_eq (hf : m.inFlight = false) (h : m.table = none) :
    { m with inFlight := true, passesStarted := m.passesStarted + 1 }.failPass t none noTableText =
      (Act.lacks t).perform m := by
  rw [failPass_eq, if_pos (by simp [sameTable, h])]
  cases hl : m.settings.listener <;> cases hs : m.switchPending <;> cases hr : m.running <;>
    simp [Act.perform, Act.change, Act.effects, shownOutcome, showing, publishedNext,
      armed, armedNext, arming, disarming, hf, hl, hs, hr]

theorem failAttach_eq (t : Nat) (e : SourceError) (m : Monitor) :
    m.failAttach t e = (Act.givesUp t e).perform m := by
  cases e with
  | failure message =>
      simp only [failAttach, publish_eq, publish_outcome]
      simp [Act.perform, Act.change, Act.effects, finish, emit, without]
  | fault f => simp [failAttach, Act.perform, Act.change, Act.effects, finish, emit, without]
  | unfinished => simp [failAttach, Act.perform, Act.change, Act.effects, finish, emit, without]

theorem finish_withPhase (t : Nat) (ph : Phase) (o : TaskOutcome) (m : Monitor) :
    { m with tasks := withPhase t ph m.tasks }.finish t o = m.finish t o := by
  have h := without_withPhase t ph m.tasks
  simp only [without] at h
  simp only [finish, h]

theorem endPass_withPhase (t : Nat) (ph : Phase) (o : TaskOutcome) (m : Monitor) :
    { m with tasks := withPhase t ph m.tasks }.endPass t o = m.endPass t o := by
  simp only [endPass_eq, Act.perform, Act.change, without_withPhase]
  rfl

theorem reportPass_withPhase (t : Nat) (ph : Phase) (table : OpenTable) (r : Report)
    (m : Monitor) :
    { m with tasks := withPhase t ph m.tasks }.reportPass t table r = m.reportPass t table r := by
  simp only [reportPass_eq t table [], Act.perform, Act.change, without_withPhase]
  rfl

theorem ask_withPhase (t : Nat) (ph ph' : Phase) (c : SourceCall) (m : Monitor) :
    { m with tasks := withPhase t ph m.tasks }.ask t ph' c = m.ask t ph' c := by
  have h := withPhase_withPhase t ph ph' m.tasks
  simp only [withPhase] at h
  simp only [ask, setPhase, withPhase, h]

theorem trigger_withPhase (t : Nat) (ph : Phase) (m : Monitor) :
    { m with tasks := withPhase t ph m.tasks }.trigger t = m.trigger t := by
  by_cases hf : m.inFlight = true
  · simp only [trigger, if_pos hf, finish_withPhase]
  · simp only [trigger, if_neg hf]
    split
    · simp only [failPass_eq, Act.perform, Act.change, without_withPhase]
      rfl
    · exact ask_withPhase t ph _ _ { m with inFlight := true, passesStarted := m.passesStarted + 1 }

theorem kind?_withPhase (t u : Nat) (ph : Phase) (m : Monitor) :
    { m with tasks := withPhase t ph m.tasks }.kind? u = m.kind? u := by
  simp only [kind?, task?, find_withPhase, Option.map_map]
  congr 1
  funext x
  by_cases hx : x.number = t <;> simp [hx]

theorem afterAttach_withPhase (t : Nat) (ph : Phase) (m : Monitor) :
    { m with tasks := withPhase t ph m.tasks }.afterAttach t = m.afterAttach t := by
  have hf := finish_withPhase t ph .nothing { m with switchPending := true }
  simp only [afterAttach, kind?_withPhase, trigger_withPhase]
  simp only at hf
  rw [hf]

theorem At.of_task? {x : Task} (h : m.task? t = some x) : At m.tasks t x.kind x.phase := by
  have hx := List.find?_some h
  simp only [decide_eq_true_eq] at hx
  rw [← hx] at h ⊢
  exact h

theorem At.withPhase {xs : List Task} {k : TaskKind} {ph : Phase} (h : At xs t k ph)
    (ph' : Phase) : At (Monitor.withPhase t ph' xs) t k ph' := by
  have hx : xs.find? (·.number = t) = some ⟨t, k, ph⟩ := h
  simp [At, find_withPhase, hx]

namespace Course

theorem trigger (h : Course s past m) (hd : Act.Due past m t) :
    Course s (past ++ m.triggerActs t) (m.trigger t) := by
  by_cases hf : m.inFlight = true
  · simp only [triggerActs, Monitor.trigger, if_pos hf]
    exact h.act (.drops t) ⟨hf, hd⟩
  · simp only [triggerActs, Monitor.trigger, if_neg hf]
    rw [Bool.not_eq_true] at hf
    cases ht : m.table with
    | none =>
        have he := lacks_eq (t := t) hf ht
        simp only [ht] at he ⊢
        rw [he]
        exact h.act (.lacks t) ⟨hf, ht, hd⟩
    | some table =>
        have h₁ := h.act (.serves t table m.selection.viewId) ⟨hf, ht, rfl, hd⟩
        simp only [Act.perform, Act.change, Act.effects, ht] at h₁ ⊢
        exact h₁

theorem afterAttach (h : Course s past m) (hd : Act.Due past m t) :
    Course s (past ++ m.afterAttachActs t) (m.afterAttach t) := by
  by_cases hp : (m.kind? t = some .switch && m.inFlight) = true
  · simp only [afterAttachActs, Monitor.afterAttach, if_pos hp]
    exact h.act (.postpones t) ⟨by simp_all, by simp_all, hd⟩
  · simp only [afterAttachActs, Monitor.afterAttach, if_neg hp]
    exact h.trigger hd

theorem select (h : Course s past m) (ha : ∃ k, At m.tasks t k .selecting) (sel : Selection) :
    Course s (past ++ m.selectActs t sel) (m.select t sel) := by
  have h₁ := h.act (.selects t sel) ha
  by_cases hs : sel.tableId.isTruthy = true
  · have he : (Act.selects t sel).perform m = m.select t sel := by
      simp [Act.perform, Act.change, Act.effects, Monitor.select, ask, setPhase, emit, withPhase,
        hs]
    simpa only [selectActs, if_pos hs, he] using h₁
  · have he : ((Act.selects t sel).perform m).afterAttach t = m.select t sel := by
      have hw := afterAttach_withPhase t (.opening sel.tableId)
        { m with selection := sel, table := none }
      simp only at hw
      simp only [Act.perform, Act.change, Act.effects, Monitor.select, if_neg hs,
        List.append_nil, hw]
    have hd : Act.Due (past ++ [.selects t sel]) ((Act.selects t sel).perform m) t := by
      obtain ⟨k, hk⟩ := ha
      refine Or.inr ⟨k, sel.tableId, At.withPhase hk _, .selects t sel, by simp, ?_⟩
      simp [Act.completer?, hs]
    rw [← he, selectActs, if_neg hs, List.append_cons]
    exact h₁.afterAttach hd

theorem attach (h : Course s past m) {k : TaskKind} {id : Value}
    (ha : At m.tasks t k (.opening id)) (observable : Bool) :
    Course s (past ++ m.attachActs t id observable) (m.attach t id observable) := by
  have h₁ := h.act (.attaches t ⟨m.nextTable, id, observable⟩) ⟨rfl, k, ha⟩
  have he : ((Act.attaches t ⟨m.nextTable, id, observable⟩).perform m).afterAttach t =
      m.attach t id observable := by
    cases observable <;>
      simp [Act.perform, Act.change, Act.effects, Monitor.attach, subscribeRecords_eq]
  have hd : Act.Due (past ++ [.attaches t ⟨m.nextTable, id, observable⟩])
      ((Act.attaches t ⟨m.nextTable, id, observable⟩).perform m) t :=
    Or.inr ⟨k, id, ha, .attaches t ⟨m.nextTable, id, observable⟩, by simp, by simp [Act.completer?]⟩
  rw [← he, attachActs, List.append_cons]
  exact h₁.afterAttach hd

theorem failPass (h : Course s past m) {p : PassRun} (hp : Passing m.tasks t p)
    (table : OpenTable) (message : String) :
    Course s (past ++ m.failPassActs t table message) (m.failPass t (some table) message) := by
  rw [failPass_eq, failPassActs]
  split
  · have hn (r : Report) : m.shownOutcome .nothing ≠ .report r := by
      simp only [shownOutcome]
      split
      · simp
      · split <;> simp
    simpa using (h.act (.shows message) trivial).act (.closes t (m.shownOutcome .nothing))
      ⟨p, hp, fun r hr => absurd hr (hn r)⟩
  · exact h.act (.closes t .nothing) ⟨p, hp, by simp⟩

theorem endPassWith (h : Course s past m) {p : PassRun} (hp : Passing m.tasks t p)
    (table : OpenTable) (e : SourceError) :
    Course s (past ++ m.endPassActs t table e) (m.endPassWith t table e) := by
  cases e with
  | failure message => exact h.failPass hp table message
  | fault f =>
      simp only [endPassActs, Monitor.endPassWith, endPass_eq]
      exact h.act (.closes t (.fault f)) ⟨p, hp, by simp⟩
  | unfinished =>
      simp only [endPassActs, Monitor.endPassWith, endPass_eq]
      exact h.act (.closes t .unfinished) ⟨p, hp, by simp⟩

theorem reportPass (h : Course s past m) {p : PassRun} {pass : Pass} {r : Report}
    (hp : Passing m.tasks t p) (hc : p.stage = .checking pass)
    (hr : pass.report? m.settings.timestamp = some r) :
    Course s (past ++ m.reportActs t p.table pass.rows r) (m.reportPass t p.table r) := by
  rw [reportPass_eq t p.table pass.rows, reportActs]
  split
  next ht =>
    have ho (r' : Report) (h' : m.shownOutcome (.report r) = .report r') : r = r' := by
      simp only [shownOutcome] at h'
      split at h'
      · simpa using h'
      · split at h' <;> simp_all
    simpa using (h.act (.publishes t p.table pass.rows r) ⟨ht, p, pass, rfl, hc, hp, rfl, hr⟩).act
      (.closes t (m.shownOutcome (.report r)))
      ⟨p, hp, fun r' hr' _ => ⟨pass.rows, by simp [ho r' hr']⟩⟩
  next ht => exact h.act (.closes t (.report r)) ⟨p, hp, fun _ _ h' => absurd h' ht⟩

/-- A pass that holds its rows goes on to check them. -/
theorem checkRows {p : PassRun} {columns : List Column} {rows : List Row}
    (h : Course s past
      { m with tasks := withPhase t (.passing (m.heldPass p columns rows)) m.tasks })
    (hp : Passing m.tasks t p) :
    Course s (past ++ m.checkActs t p columns rows) (m.checkRows t p columns rows) := by
  replace hp : Passing (withPhase t (.passing (m.heldPass p columns rows)) m.tasks) t
      (m.heldPass p columns rows) := hp.imp fun _ hk => hk.withPhase _
  cases ho : Pass.options? m.settings.chunkSize m.settings.messages m.settings.now with
  | none =>
      simp only [checkActs, Monitor.checkRows, ho]
      rw [← endPass_withPhase t (.passing (m.heldPass p columns rows)), endPass_eq]
      exact h.act (.closes t .noChunk) ⟨_, hp, by simp⟩
  | some o =>
      simp only [checkActs, Monitor.checkRows, ho]
      split
      next he =>
        rw [← reportPass_withPhase t (.passing (m.heldPass p columns rows))]
        refine h.reportPass hp rfl ?_
        simp [Pass.report?, Pass.start, List.isEmpty_iff.mp he, Pass.outcomes?]
      next he =>
        have hm := h.act (.announces t columns.length) trivial
        simp only [Pass.options?] at ho
        split at ho
        · simp at ho
        · obtain rfl := Option.some.inj ho
          exact hm

theorem loadRows (h : Course s past m) {p : PassRun} (hp : Passing m.tasks t p)
    (hf : p.stage = .fields) (columns : List Column) :
    Course s (past ++ m.loadActs t p columns) (m.loadRows t p columns) := by
  cases hr : m.session.rows with
  | none =>
      simp only [loadActs, Monitor.loadRows, hr]
      exact h.act (.loads t p columns) ⟨hr, hf, hp⟩
  | some rows =>
      simp only [loadActs, Monitor.loadRows, hr]
      have h₁ := h.act (.takes t p columns rows) ⟨hr, hf, hp⟩
      simp only [Act.perform, Act.change, Act.effects, List.append_nil] at h₁
      simpa using h₁.checkRows hp

theorem passReplied (h : Course s past m) {p : PassRun} (hp : Passing m.tasks t p)
    (r : TableReply) :
    Course s (past ++ m.passActs t p r) (m.passReplied t p r) := by
  have hw : Course s (past ++ [.closes t (.fault .wrongKind)])
      (m.endPass t (.fault .wrongKind)) := by
    rw [endPass_eq]
    exact h.act (.closes t (.fault .wrongKind)) ⟨p, hp, by simp⟩
  cases hs : p.stage with
  | fields =>
      cases r with
      | fields columns =>
          simpa only [passActs, Monitor.passReplied, hs] using h.loadRows hp hs columns
      | failed e =>
          simpa only [passActs, Monitor.passReplied, hs] using h.endPassWith hp p.table e
      | _ => simpa only [passActs, Monitor.passReplied, hs] using hw
  | reading columns generation reading =>
      simp only [passActs, Monitor.passReplied, hs]
      cases hn : reading.resume (m.rowQuery p columns) r with
      | ask reading' => exact h.act (.pages t p columns generation reading') ⟨reading, hs, hp⟩
      | rows rows =>
          have h₁ := h.act (.reads t p columns generation rows) ⟨reading, r, hs, hp, hn⟩
          simp only [Act.perform, Act.change, Act.effects, List.append_nil] at h₁
          rw [List.append_cons]
          exact h₁.checkRows (m := { m with session := m.session.keepRows generation rows }) hp
      | failed e => exact h.endPassWith hp p.table e
  | checking pass => simpa only [passActs, Monitor.passReplied, hs] using hw

theorem afterPopulating (h : Course s past m) {k : TaskKind} {ph : Phase}
    (ha : At m.tasks t k ph) (hp : ph.isPopulating = true) :
    Course s (past ++ [.forgets, .arms, .ends t .nothing]) (m.afterPopulating t) := by
  have h₁ := ((h.act .forgets trivial).act .arms trivial).act (.ends t .nothing)
    ⟨k, ph, ha, Or.inl hp⟩
  simp only [Act.perform, Act.change, Act.effects, List.append_nil, List.append_assoc,
    List.cons_append, List.nil_append] at h₁
  simpa only [Monitor.afterPopulating, armTimer_eq, invalidate, finish, emit, without,
    List.append_assoc] using h₁

theorem continuePopulating (h : Course s past m) {k : TaskKind} {ph : Phase}
    (ha : At m.tasks t k ph) (hp : ph.isPopulating = true) (table : OpenTable)
    (n : Defaults.Next) :
    Course s (past ++ continueActs t table n) (m.continuePopulating t table n) := by
  match n with
  | .ends (.finished _) => exact h.afterPopulating ha hp
  | .ends .noAttempt => exact h.act (.ends t .noAttempt) ⟨k, ph, ha, Or.inl hp⟩
  | .ends (.fault f) => exact h.act (.ends t (.fault f)) ⟨k, ph, ha, Or.inl hp⟩
  | .continues p =>
      simp only [continueActs, Monitor.continuePopulating]
      cases p.need with
      | call c =>
          exact h.act (.populates t (.populating table p) (.ask t (.table table c)))
            ⟨rfl, Or.inl ⟨_, rfl⟩, k, ph, ha, Or.inl hp⟩
      | sleep wait =>
          exact h.act (.populates t (.populating table p) (.sleep t wait))
            ⟨rfl, Or.inr ⟨_, rfl⟩, k, ph, ha, Or.inl hp⟩

theorem populationReplied (h : Course s past m) {k : TaskKind} {ph : Phase}
    (ha : At m.tasks t k ph) (hp : ph.isPopulating = true) (r : TableReply) :
    Course s (past ++ m.populationActs t ph r) (m.populationReplied t ph r) := by
  have he (o : TaskOutcome) : Course s (past ++ [.ends t o]) (m.finish t o) :=
    h.act (.ends t o) ⟨k, ph, ha, Or.inl hp⟩
  cases ph with
  | adding table ids =>
      cases r with
      | fields columns =>
          simp only [populationActs, Monitor.populationReplied]
          cases Defaults.targets columns with
          | error f => exact he (.fault f)
          | ok targets => exact h.continuePopulating ha hp table _
      | failed e =>
          cases e with
          | failure message => exact h.afterPopulating ha hp
          | fault f => exact he _
          | unfinished => exact he _
      | _ => exact he _
  | populating table p => exact h.continuePopulating ha hp table _
  | _ => simp [Phase.isPopulating] at hp

theorem populate (h : Course s past m) {ids : List String}
    (ha : At m.tasks t (.added ids) .ready) :
    Course s (past ++ m.populateActs t ids) (m.populate t ids) := by
  have he : Course s (past ++ [.arms, .ends t .nothing]) (m.armTimer.finish t .nothing) := by
    have h₁ := (h.act .arms trivial).act (.ends t .nothing)
      ⟨.added ids, .ready, ha, Or.inr (Or.inr ⟨rfl, Or.inr ⟨ids, rfl⟩⟩)⟩
    simpa [Act.perform, Act.change, Act.effects, armTimer_eq, finish, emit, without] using h₁
  simp only [populateActs, Monitor.populate]
  cases m.table with
  | none => exact he
  | some table =>
      simp only
      split
      · exact he
      · exact h.act (.populates t (.adding table ids) (.ask t (.table table .fields)))
          ⟨rfl, Or.inl ⟨_, rfl⟩, .added ids, .ready, ha, Or.inr ⟨rfl, ids, rfl⟩⟩

theorem begins (h : Course s past m) {k : TaskKind} (ha : At m.tasks t k .ready) :
    Course s (past ++ m.beginActs t k) (m.begins t k) := by
  cases k with
  | start =>
      by_cases hr : m.running = true
      · simp only [beginActs, Monitor.begins, Monitor.start, if_pos hr]
        exact h.act (.ends t _) ⟨.start, .ready, ha, Or.inr (Or.inr ⟨rfl, Or.inl rfl⟩)⟩
      · simp only [beginActs, Monitor.begins, if_neg hr]
        rw [Bool.not_eq_true] at hr
        rw [start_eq hr]
        exact h.act (.starts t) ⟨hr, ha⟩
  | stop =>
      simp only [beginActs, Monitor.begins, stop_eq]
      exact h.act (.halts t) ha
  | trigger => exact h.trigger (Or.inl ⟨.trigger, ha, Or.inl rfl⟩)
  | elapsed => exact h.trigger (Or.inl ⟨.elapsed, ha, Or.inr rfl⟩)
  | switch =>
      simp only [beginActs, Monitor.begins, switch_eq]
      exact h.act (.switches t) ha
  | added ids => exact h.populate ha

theorem failAttach (h : Course s past m) {k : TaskKind} {ph : Phase}
    (ha : At m.tasks t k ph) (hp : ph.isAttaching = true) (e : SourceError) :
    Course s (past ++ [.givesUp t e]) (m.failAttach t e) := by
  rw [failAttach_eq]
  exact h.act (.givesUp t e) ⟨k, ph, ha, hp⟩

theorem replied (h : Course s past m) {k : TaskKind} {ph : Phase} (ha : At m.tasks t k ph)
    (r : SourceReply) :
    Course s (past ++ m.replyActs t ph r) (m.replied t ph r) := by
  have hn : Course s (past ++ []) m := by simpa using h
  cases ph with
  | selecting =>
      cases r with
      | selection sel => exact h.select ⟨k, ha⟩ sel
      | failed e => exact h.failAttach ha rfl e
      | _ => exact hn
  | opening id =>
      cases r with
      | opened observable => exact h.attach ha observable
      | failed e => exact h.failAttach ha rfl e
      | _ => exact hn
  | passing p =>
      cases r with
      | table r => exact h.passReplied ⟨k, ha⟩ r
      | failed e => exact h.endPassWith ⟨k, ha⟩ p.table e
      | _ => exact hn
  | adding table ids =>
      cases r with
      | table r => exact h.populationReplied ha rfl r
      | failed e => exact h.populationReplied ha rfl (.failed e)
      | _ => exact hn
  | populating table p =>
      cases r with
      | table r => exact h.populationReplied ha rfl r
      | failed e => exact h.populationReplied ha rfl (.failed e)
      | _ => exact hn
  | _ => cases r <;> exact hn

theorem passOver (h : Course s past m) {p : PassRun} {pass : Pass} (hp : Passing m.tasks t p)
    (hc : p.stage = .checking pass) (fault : Option Fault) :
    Course s (past ++ m.passOverActs t p pass fault) (m.passOver t p pass fault) := by
  simp only [passOverActs, Monitor.passOver]
  cases fault with
  | some f =>
      simp only [endPass_eq]
      exact h.act (.closes t (.fault f)) ⟨p, hp, by simp⟩
  | none =>
      cases hr : pass.report? m.settings.timestamp with
      | none => simpa using h
      | some r => exact h.reportPass hp hc hr

theorem cancelled (h : Course s past m) {k : TaskKind} {ph : Phase} (ha : At m.tasks t k ph) :
    Course s (past ++ cancelActs t ph) (m.cancelled t ph) := by
  cases ph with
  | passing p =>
      simp only [cancelActs, Monitor.cancelled, endPass_eq]
      exact h.act (.closes t .cancelled) ⟨p, ⟨k, ha⟩, by simp⟩
  | _ => exact h.act (.abandons t) ⟨k, _, ha, rfl⟩

theorem taskStep (h : Course s past m) {x : Task} {e : MonitorEvent} (he : taskOf? e = some t)
    (hx : m.task? t = some x) :
    Course s (past ++ m.taskActs x e) (m.taskStep x e) := by
  have hn : Course s (past ++ []) m := by simpa using h
  have ha := At.of_task? hx
  obtain ⟨n, k, ph⟩ := x
  cases e with
  | begins u =>
      obtain rfl := Option.some.inj he
      cases ph with
      | ready => exact h.begins ha
      | _ => exact hn
  | replied u r =>
      obtain rfl := Option.some.inj he
      exact h.replied ha r
  | woke u =>
      obtain rfl := Option.some.inj he
      cases ph with
      | populating table p => exact h.continuePopulating ha rfl table p.wake
      | _ => exact hn
  | column u i =>
      obtain rfl := Option.some.inj he
      match ph with
      | .passing ⟨table, view, .checking pass⟩ =>
          have h₁ := h.act (.turns u ⟨table, view, .checking pass⟩ pass i) ⟨rfl, k, ha⟩
          simp only [Act.perform, Act.change, Act.effects, List.append_nil] at h₁
          exact h₁
      | .passing ⟨table, view, .fields⟩ => exact hn
      | .passing ⟨table, view, .reading ..⟩ => exact hn
      | .ready | .selecting | .opening _ | .adding .. | .populating .. | .stopping _ => exact hn
  | passOver u fault =>
      obtain rfl := Option.some.inj he
      match ph with
      | .passing ⟨table, view, .checking pass⟩ => exact h.passOver ⟨k, ha⟩ rfl fault
      | .passing ⟨table, view, .fields⟩ => exact hn
      | .passing ⟨table, view, .reading ..⟩ => exact hn
      | .ready | .selecting | .opening _ | .adding .. | .populating .. | .stopping _ => exact hn
  | joined u =>
      obtain rfl := Option.some.inj he
      cases ph with
      | stopping others =>
          simp only [taskActs, Monitor.taskStep]
          split
          · exact hn
          · exact h.act (.ends u .nothing) ⟨k, _, ha, Or.inr (Or.inl ⟨others, rfl⟩)⟩
      | _ => exact hn
  | cancelled u =>
      obtain rfl := Option.some.inj he
      exact h.cancelled ha
  | _ => simp [taskOf?] at he

/-- A turn is a course of its acts. -/
theorem step (h : Course s past m) (e : MonitorEvent) :
    Course s (past ++ m.turn e) (m.step e) := by
  have hn : Course s (past ++ []) m := by simpa using h
  cases he : taskOf? e with
  | some t =>
      simp only [turn, Monitor.step, he]
      cases hx : m.task? t with
      | none => exact hn
      | some x => exact h.taskStep he hx
  | none =>
      simp only [turn, Monitor.step, he, whileRunning]
      cases e with
      | request k => exact h.act (.spawns k) trivial
      | recordsAdded ids =>
          simp only
          split
          · have h₁ := (h.act .forgets trivial).act (.spawns (.added ids)) trivial
            simp only [Act.perform, Act.change, Act.effects, List.append_nil, List.append_assoc,
              List.cons_append, List.nil_append] at h₁
            exact h₁
          · exact hn
      | recordsChanged =>
          simp only
          split
          next hr =>
            have h₁ := h.act .changes hr
            rw [armTimer_eq]
            exact h₁
          next => exact hn
      | selectionChanged =>
          simp only
          split
          · exact h.act (.spawns .switch) trivial
          · exact hn
      | elapsed timer =>
          simp only
          split
          next =>
            have h₁ := h.act .elapses trivial
            split
            next hr =>
              simp only [Act.perform, Act.change, Act.effects, if_pos hr] at h₁
              exact h₁
            next hr =>
              simp only [Act.perform, Act.change, Act.effects, if_neg hr, List.append_nil] at h₁
              exact h₁
          next => exact hn
      | invalidated =>
          have h₁ := h.act .forgets trivial
          simp only [Act.perform, Act.change, Act.effects, List.append_nil] at h₁
          exact h₁
      | _ => exact hn

end Course

/-- The monitor that has dealt with a list of events. -/
def run (s : MonitorSettings) (es : List MonitorEvent) : Monitor :=
  es.foldl step (initial s)

/-- The acts of a monitor that deals with a list of events. -/
def actsFrom : Monitor → List MonitorEvent → List Act
  | _, [] => []
  | m, e :: es => m.turn e ++ actsFrom (m.step e) es

/-- The acts of a run, one after the other. -/
def history (s : MonitorSettings) (es : List MonitorEvent) : List Act :=
  actsFrom (initial s) es

theorem actsFrom_append (m : Monitor) (es es' : List MonitorEvent) :
    actsFrom m (es ++ es') = actsFrom m es ++ actsFrom (es.foldl step m) es' := by
  induction es generalizing m with
  | nil => rfl
  | cons e es ih => simp [actsFrom, ih]

theorem history_concat (s : MonitorSettings) (es : List MonitorEvent) (e : MonitorEvent) :
    history s (es ++ [e]) = history s es ++ (run s es).turn e := by
  simp [history, run, actsFrom_append, actsFrom]

theorem Course.foldl_step (h : Course s past m) (es : List MonitorEvent) :
    Course s (past ++ actsFrom m es) (es.foldl Monitor.step m) := by
  induction es generalizing past m with
  | nil => simpa [actsFrom] using h
  | cons e es ih =>
      have h₁ := ih (h.step e)
      simpa only [actsFrom, List.foldl_cons, List.append_assoc] using h₁

/-- Every run is a course of its history. -/
theorem course_run (s : MonitorSettings) (es : List MonitorEvent) :
    Course s (history s es) (run s es) := by
  simpa [history, run] using Course.initial.foldl_step es

/-- Settings for a source that tells of changes and lets subscriptions be taken back. -/
def watching : MonitorSettings where
  chunkSize := PassOptions.usualChunkSize
  pageSize := RowQuery.usualPageSize
  debounce := .int 1
  retry := ⟨3, .int 1, .int 5⟩
  messages := []
  now := default
  timestamp := ""
  listener := some []
  watchesSelection := true
  unsubscribes := true

end Monitor

end TableAudit
