import TableAudit.Proofs.Monitor.Course

/-!
# Turns of a pass, and where acts come from

A turn of a task that makes a pass takes the pass further, and ends it or leaves it waiting. Nothing
but its end shows anything, and only while its table is attached. What is shown is shown right
before the end, so a listener that fails does not keep the pass from ending.
-/

namespace TableAudit

namespace Act

/-- Whether an act takes the pass of a task further. -/
def furthers (t : Nat) : Act → Bool
  | .loads u _ _ => u == t
  | .pages u _ _ _ _ => u == t
  | .takes u _ _ _ => u == t
  | .reads u _ _ _ _ => u == t
  | .announces u _ => u == t
  | .turns u _ _ _ => u == t
  | _ => false

end Act

namespace Monitor

variable {m : Monitor} {e : MonitorEvent} {acts : List Act} {a : Act} {t : Nat} {p : PassRun}
variable {table : OpenTable}

/-- How a turn of a pass over a table comes out. -/
inductive PassEnd (m : Monitor) (t : Nat) (table : OpenTable) : List Act → Prop
  | waits : PassEnd m t table []
  | closed (o : TaskOutcome) : PassEnd m t table [.closes t o]
  | failed (message : String) :
      sameTable m.table (some table) = true →
        PassEnd m t table [.shows message, .closes t (m.shownOutcome .nothing)]
  | reported (rows : List Row) (r : Report) :
      sameTable m.table (some table) = true →
        PassEnd m t table [.publishes t table rows r, .closes t (m.shownOutcome (.report r))]

/-- A turn of a pass over a table: it takes the pass further, and comes out somehow. -/
def PassTurn (m : Monitor) (t : Nat) (table : OpenTable) (acts : List Act) : Prop :=
  ∃ work rest, acts = work ++ rest ∧ (∀ a ∈ work, a.furthers t = true) ∧ PassEnd m t table rest

theorem PassEnd.passTurn (h : PassEnd m t table acts) : PassTurn m t table acts :=
  ⟨[], acts, rfl, by simp, h⟩

theorem PassTurn.single (ha : a.furthers t = true) : PassTurn m t table [a] :=
  ⟨[a], [], rfl, by simpa using ha, .waits⟩

theorem PassTurn.cons (ha : a.furthers t = true) (h : PassTurn m t table acts) :
    PassTurn m t table (a :: acts) := by
  obtain ⟨work, rest, rfl, hw, hr⟩ := h
  exact ⟨a :: work, rest, rfl, by simpa [ha] using hw, hr⟩

/-- The acts of a turn of a pass, one by one. -/
theorem PassTurn.cases (h : PassTurn m t table acts) (ha : a ∈ acts) :
    a.furthers t = true ∨ (∃ o, a = .closes t o) ∨
      sameTable m.table (some table) = true ∧
        ((∃ message, a = .shows message) ∨ ∃ rows r, a = .publishes t table rows r) := by
  obtain ⟨work, rest, rfl, hw, hr⟩ := h
  obtain ha | ha := List.mem_append.mp ha
  · exact Or.inl (hw a ha)
  · cases hr with
    | waits => simp at ha
    | closed o => exact Or.inr (Or.inl ⟨o, List.mem_singleton.mp ha⟩)
    | failed message hs =>
        simp only [List.mem_cons, List.not_mem_nil, or_false] at ha
        obtain rfl | rfl := ha
        · exact Or.inr (Or.inr ⟨hs, Or.inl ⟨message, rfl⟩⟩)
        · exact Or.inr (Or.inl ⟨_, rfl⟩)
    | reported rows r hs =>
        simp only [List.mem_cons, List.not_mem_nil, or_false] at ha
        obtain rfl | rfl := ha
        · exact Or.inr (Or.inr ⟨hs, Or.inr ⟨rows, r, rfl⟩⟩)
        · exact Or.inr (Or.inl ⟨_, rfl⟩)

theorem endPass_turn (t : Nat) (table : OpenTable) (er : SourceError) (m : Monitor) :
    PassEnd m t table (m.endPassActs t table er) := by
  cases er with
  | failure message =>
      simp only [endPassActs, failPassActs]
      split
      next hs => exact .failed message hs
      next => exact .closed .nothing
  | fault f => exact .closed (.fault f)
  | unfinished => exact .closed .unfinished

theorem report_turn (t : Nat) (table : OpenTable) (rows : List Row) (r : Report) (m : Monitor) :
    PassEnd m t table (m.reportActs t table rows r) := by
  simp only [reportActs]
  split
  next hs => exact .reported rows r hs
  next => exact .closed (.report r)

theorem check_turn (t : Nat) (p : PassRun) (columns : List Column) (rows : List Row)
    (m : Monitor) : PassTurn m t p.table (m.checkActs t p columns rows) := by
  simp only [checkActs]
  split
  · exact (PassEnd.closed .noChunk).passTurn
  · split
    · exact (report_turn t p.table rows _ m).passTurn
    · exact .single (by simp [Act.furthers])

theorem load_turn (t : Nat) (p : PassRun) (columns : List Column) (m : Monitor) :
    PassTurn m t p.table (m.loadActs t p columns) := by
  simp only [loadActs]
  split
  · exact (check_turn t p columns _ m).cons (by simp [Act.furthers])
  · exact .single (by simp [Act.furthers])

theorem pass_turn (t : Nat) (p : PassRun) (r : TableReply) (m : Monitor) :
    PassTurn m t p.table (m.passActs t p r) := by
  simp only [passActs]
  split
  · exact load_turn t p _ m
  · exact (endPass_turn t p.table _ m).passTurn
  · split
    · exact .single (by simp [Act.furthers])
    · exact (check_turn t p _ _ m).cons (by simp [Act.furthers])
    · exact (endPass_turn t p.table _ m).passTurn
  · exact (PassEnd.closed (.fault .wrongKind)).passTurn

theorem passOver_turn (t : Nat) (p : PassRun) (pass : Pass) (fault : Option Fault)
    (m : Monitor) : PassEnd m t p.table (m.passOverActs t p pass fault) := by
  simp only [passOverActs]
  split
  · exact .closed _
  · exact report_turn t p.table pass.rows _ m
  · exact .waits

/-- Whatever happens to a task that makes a pass is a turn of the pass. -/
theorem passTurn_of_passing (hp : Passing m.tasks t p) (he : taskOf? e = some t) :
    PassTurn m t p.table (m.turn e) := by
  obtain ⟨k, hk⟩ := hp
  have hx : m.task? t = some ⟨t, k, .passing p⟩ := hk
  simp only [turn, he, hx]
  have hn : PassTurn m t p.table [] := PassEnd.waits.passTurn
  cases e with
  | replied u r =>
      obtain rfl := Option.some.inj he
      cases r with
      | table r => exact pass_turn u p r m
      | failed er => exact (endPass_turn u p.table er m).passTurn
      | _ => exact hn
  | column u i =>
      obtain rfl := Option.some.inj he
      obtain ⟨table, view, point⟩ := p
      cases point with
      | checking pass => exact .single (by simp [Act.furthers])
      | _ => exact hn
  | passOver u fault =>
      obtain rfl := Option.some.inj he
      obtain ⟨table, view, point⟩ := p
      cases point with
      | checking pass =>
          exact (passOver_turn u ⟨table, view, .checking pass⟩ pass fault m).passTurn
      | _ => exact hn
  | cancelled u =>
      obtain rfl := Option.some.inj he
      exact (PassEnd.closed .cancelled).passTurn
  | _ => exact hn

end Monitor

/-! ### Where acts come from

Four kinds of acts have an origin outside of the turn that they belong to: a task is begun because
someone asks for it, the timer runs down because it is due, a task is told a selection because the
source replies with one, and records are worked on because they were added. What brings each of them
about is said here once. All other acts are plain.
-/

namespace Act

/-- Whether an act neither begins a task that someone asks for, nor comes of the timer, nor tells a
task a selection, nor works on records that were added. -/
def isPlain : Act → Bool
  | spawns _ => false
  | elapses => false
  | selects _ _ => false
  | populates _ _ _ => false
  | _ => true

end Act

namespace Monitor

variable {m : Monitor} {e : MonitorEvent} {a : Act} {t : Nat}

/-- What is left in the outbox for what populating waits for. -/
def populationEffect (t : Nat) (table : OpenTable) (p : Defaults.Population) : Effect :=
  match p.need with
  | .call c => .ask t (.table table c)
  | .sleep wait => .sleep t wait

/-- What can bring an act about when something happens to a monitor. -/
inductive Arises (m : Monitor) : MonitorEvent → Act → Prop
  | plain {e : MonitorEvent} {a : Act} : a.isPlain = true → Arises m e a
  | asked (k : TaskKind) : Arises m (.request k) (.spawns k)
  | added (ids : List String) :
      m.running = true → Arises m (.recordsAdded ids) (.spawns (.added ids))
  | changed : Arises m .selectionChanged (.spawns .switch)
  | ranDown {i : Nat} : m.timer = some i → Arises m (.elapsed i) .elapses
  | selected (t : Nat) (sel : Selection) :
      Arises m (.replied t (.selection sel)) (.selects t sel)
  /-- Records that were added are turned to, in the table that is attached. -/
  | turned {t : Nat} {table : OpenTable} {ids : List String} :
      At m.tasks t (.added ids) .ready → m.table = some table →
        Arises m (.begins t) (.populates t (.adding table ids) (.ask t (.table table .fields)))
  /-- The columns of the table are known. -/
  | found {e : MonitorEvent} {t : Nat} {k : TaskKind} {table : OpenTable} {ids : List String}
      {targets : List Defaults.Target} {p : Defaults.Population} :
      At m.tasks t k (.adding table ids) →
        Defaults.Population.start targets ids = .continues p →
          Arises m e (.populates t (.populating table p) (populationEffect t table p))
  /-- A cell was read or written, or a wait is over. -/
  | resumed {e : MonitorEvent} {t : Nat} {k : TaskKind} {table : OpenTable}
      {p q : Defaults.Population} :
      At m.tasks t k (.populating table p) →
        ((∃ r, p.resume m.settings.retry r = .continues q) ∨ p.wake = .continues q) →
          Arises m e (.populates t (.populating table q) (populationEffect t table q))

/-- All acts of a list are plain. -/
def Plain (acts : List Act) : Prop :=
  ∀ a ∈ acts, a.isPlain = true

theorem plain_trigger (t : Nat) (m : Monitor) : Plain (m.triggerActs t) := by
  intro a ha
  simp only [triggerActs] at ha
  split at ha
  · obtain rfl := List.mem_singleton.mp ha
    rfl
  · split at ha <;> obtain rfl := List.mem_singleton.mp ha <;> rfl

theorem plain_afterAttach (t : Nat) (m : Monitor) : Plain (m.afterAttachActs t) := by
  intro a ha
  simp only [afterAttachActs] at ha
  split at ha
  · obtain rfl := List.mem_singleton.mp ha
    rfl
  · exact plain_trigger t m a ha

theorem PassTurn.plain {table : OpenTable} {acts : List Act} (h : PassTurn m t table acts) :
    Plain acts := by
  intro a ha
  obtain hw | ⟨o, rfl⟩ | ⟨-, ⟨message, rfl⟩ | ⟨rows, r, rfl⟩⟩ := h.cases ha
  · cases a <;> first | rfl | simp [Act.furthers] at hw
  · rfl
  · rfl
  · rfl

/-- When populating goes on or ends, the only act that is not plain goes on with it. -/
theorem continue_cases {table : OpenTable} {n : Defaults.Next}
    (ha : a ∈ continueActs t table n) :
    a.isPlain = true ∨ ∃ p, n = .continues p ∧
      a = .populates t (.populating table p) (populationEffect t table p) := by
  simp only [continueActs] at ha
  split at ha
  · simp only [List.mem_cons, List.not_mem_nil, or_false] at ha
    left
    obtain rfl | rfl | rfl := ha <;> rfl
  · left
    obtain rfl := List.mem_singleton.mp ha
    rfl
  · left
    obtain rfl := List.mem_singleton.mp ha
    rfl
  next p =>
    refine Or.inr ⟨p, rfl, ?_⟩
    cases hp : p.need <;> simp_all [populationEffect]

theorem arises_of_population {k : TaskKind} {ph : Phase} {r : TableReply}
    (hk : At m.tasks t k ph) (ha : a ∈ m.populationActs t ph r) : Arises m e a := by
  simp only [populationActs] at ha
  split at ha
  · split at ha
    · obtain rfl := List.mem_singleton.mp ha
      exact .plain rfl
    · obtain hp | ⟨p, hn, rfl⟩ := continue_cases ha
      · exact .plain hp
      · exact .found hk hn
  · simp only [List.mem_cons, List.not_mem_nil, or_false] at ha
    refine .plain ?_
    obtain rfl | rfl | rfl := ha <;> rfl
  · obtain rfl := List.mem_singleton.mp ha
    exact .plain rfl
  next r =>
    obtain hp | ⟨q, hn, rfl⟩ := continue_cases ha
    · exact .plain hp
    · exact .resumed hk (Or.inl ⟨_, hn⟩)
  · obtain rfl := List.mem_singleton.mp ha
    exact .plain rfl

theorem arises_of_begin {k : TaskKind} (hk : At m.tasks t k .ready)
    (ha : a ∈ m.beginActs t k) : Arises m (.begins t) a := by
  cases k with
  | start =>
      simp only [beginActs] at ha
      split at ha <;> obtain rfl := List.mem_singleton.mp ha <;> exact .plain rfl
  | stop | switch =>
      obtain rfl := List.mem_singleton.mp ha
      exact .plain rfl
  | trigger | elapsed => exact .plain (plain_trigger t m a ha)
  | added ids =>
      have hend : a ∈ [Act.arms, .ends t .nothing] → Arises m (.begins t) a := by
        intro ha
        simp only [List.mem_cons, List.not_mem_nil, or_false] at ha
        refine .plain ?_
        obtain rfl | rfl := ha <;> rfl
      simp only [beginActs, populateActs] at ha
      split at ha
      · exact hend ha
      next table hm =>
        split at ha
        · exact hend ha
        · obtain rfl := List.mem_singleton.mp ha
          exact .turned hk hm

theorem arises_of_reply {k : TaskKind} {ph : Phase} {r : SourceReply} (hk : At m.tasks t k ph)
    (ha : a ∈ m.replyActs t ph r) : Arises m (.replied t r) a := by
  simp only [replyActs] at ha
  split at ha
  · obtain rfl | ha := List.mem_cons.mp ha
    · exact .selected t _
    · split at ha
      · simp at ha
      · exact .plain (plain_afterAttach t _ a ha)
  · obtain rfl := List.mem_singleton.mp ha
    exact .plain rfl
  · obtain rfl | ha := List.mem_cons.mp ha
    · exact .plain rfl
    · exact .plain (plain_afterAttach t _ a ha)
  · obtain rfl := List.mem_singleton.mp ha
    exact .plain rfl
  · exact .plain ((pass_turn t _ _ m).plain a ha)
  · exact .plain ((endPass_turn t _ _ m).passTurn.plain a ha)
  · exact arises_of_population hk ha
  · exact arises_of_population hk ha
  · exact arises_of_population hk ha
  · exact arises_of_population hk ha
  · simp at ha

theorem arises_of_task {x : Task} (he : taskOf? e = some t) (hx : m.task? t = some x)
    (ha : a ∈ m.taskActs x e) : Arises m e a := by
  have hk := At.of_task? hx
  simp only [taskActs] at ha
  split at ha
  next u hph =>
    obtain rfl := Option.some.inj he
    rw [hph] at hk
    exact arises_of_begin hk ha
  next u r _ =>
    obtain rfl := Option.some.inj he
    exact arises_of_reply hk ha
  next u table p hph =>
    obtain rfl := Option.some.inj he
    rw [hph] at hk
    obtain hp | ⟨q, hn, rfl⟩ := continue_cases ha
    · exact .plain hp
    · exact .resumed hk (Or.inr hn)
  · obtain rfl := List.mem_singleton.mp ha
    exact .plain rfl
  · exact .plain ((passOver_turn _ _ _ _ m).passTurn.plain a ha)
  · split at ha
    · simp at ha
    · obtain rfl := List.mem_singleton.mp ha
      exact .plain rfl
  · simp only [cancelActs] at ha
    split at ha <;> obtain rfl := List.mem_singleton.mp ha <;> exact .plain rfl
  · simp at ha

/-- Every act of a turn is brought about by what happens, or is plain. -/
theorem arises_of_turn (ha : a ∈ m.turn e) : Arises m e a := by
  simp only [turn] at ha
  split at ha
  next t ht =>
    split at ha
    next x hx => exact arises_of_task ht hx ha
    next => simp at ha
  next =>
    split at ha
    · obtain rfl := List.mem_singleton.mp ha
      exact .asked _
    · split at ha
      next hr =>
        simp only [List.mem_cons, List.not_mem_nil, or_false] at ha
        obtain rfl | rfl := ha
        · exact .plain rfl
        · exact .added _ hr
      next => simp at ha
    · split at ha
      · obtain rfl := List.mem_singleton.mp ha
        exact .plain rfl
      · simp at ha
    · split at ha
      · obtain rfl := List.mem_singleton.mp ha
        exact .changed
      · simp at ha
    · split at ha
      next ht =>
        obtain rfl := List.mem_singleton.mp ha
        exact .ranDown ht
      next => simp at ha
    · obtain rfl := List.mem_singleton.mp ha
      exact .plain rfl
    · simp at ha

/-- The timer runs down when it does. -/
theorem elapsed_of_turn (h : .elapses ∈ m.turn e) : ∃ i, e = .elapsed i ∧ m.timer = some i := by
  cases arises_of_turn h with
  | plain hp => simp [Act.isPlain] at hp
  | ranDown ht => exact ⟨_, rfl, ht⟩

/-- A task is told a selection when the source replies with it. -/
theorem told_of_turn {sel : Selection} (h : .selects t sel ∈ m.turn e) :
    e = .replied t (.selection sel) := by
  cases arises_of_turn h with
  | plain hp => simp [Act.isPlain] at hp
  | selected => rfl

end Monitor

end TableAudit
