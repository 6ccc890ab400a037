import TableAudit.Proofs.Monitor.Calm
import TableAudit.Proofs.Monitor.Freshness
import TableAudit.Proofs.Number.Rounding

/-!
# Monitors over time

Time passes while no task waits for its first turn and no timer is overdue, and a timer runs down no
sooner than it is due. A monitor that is left to its timer goes through three stages: the timer
runs, the task that it began waits for its first turn, and the pass of that task has begun.
-/

namespace TableAudit

namespace Number

/-- How long a number of seconds is. -/
def seconds : Number → ℚ
  | .int n => n
  | .float x => x.value

/-- Whether a number of seconds is a span of time. -/
def IsSpan (n : Number) : Prop :=
  (∀ x, n = .float x → x.isFinite = true) ∧ 0 ≤ n.seconds

end Number

/-- What happens to a monitor over time. -/
inductive ClockStep
  | waits (span : ℚ)
  | happens (e : MonitorEvent)

namespace ClockStep

/-- How much time passes. -/
def span : ClockStep → ℚ
  | waits d => d
  | happens _ => 0

/-- What happens to the monitor. -/
def event? : ClockStep → Option MonitorEvent
  | waits _ => none
  | happens e => some e

end ClockStep

namespace Monitor

variable {s : MonitorSettings} {n t : Nat} {xs ys : List ClockStep} {st : ClockStep} {d : ℚ}

/-- How much time passes in some steps. -/
def spanOf (steps : List ClockStep) : ℚ :=
  (steps.map ClockStep.span).sum

/-- What happens to the monitor in some steps. -/
def eventsOf (steps : List ClockStep) : List MonitorEvent :=
  steps.filterMap ClockStep.event?

@[simp] theorem spanOf_nil : spanOf [] = 0 :=
  rfl

@[simp] theorem spanOf_cons : spanOf (st :: ys) = st.span + spanOf ys := by
  simp [spanOf]

@[simp] theorem spanOf_append : spanOf (xs ++ ys) = spanOf xs + spanOf ys := by
  simp [spanOf]

@[simp] theorem eventsOf_append : eventsOf (xs ++ ys) = eventsOf xs ++ eventsOf ys := by
  simp [eventsOf]

/-- A monitor, the time, and the time when its timer was started last. -/
structure Clocked where
  monitor : Monitor
  now : ℚ
  started : ℚ

namespace Clocked

variable {c : Clocked} {P Q : Clocked → ClockStep → Prop}

/-- Before anything happened. -/
def initial (s : MonitorSettings) : Clocked :=
  ⟨Monitor.initial s, 0, 0⟩

/-- When the timer is due, if there is one. -/
def due (c : Clocked) : ℚ :=
  c.started + c.monitor.settings.debounce.seconds

def step (c : Clocked) : ClockStep → Clocked
  | .waits span => { c with now := c.now + span }
  | .happens e =>
    { c with
      monitor := c.monitor.step e
      started :=
        if (c.monitor.step e).nextTimer = c.monitor.nextTimer then c.started else c.now }

/-- Whether a step can come next. Time passes while no task waits for its first turn and the timer
is not overdue, and the timer runs down no sooner than it is due. -/
def Allows (c : Clocked) : ClockStep → Prop
  | .waits span =>
    0 ≤ span ∧ (∀ t k, ¬ At c.monitor.tasks t k .ready) ∧
      (c.monitor.timer ≠ none → c.now + span ≤ c.due)
  | .happens (.elapsed i) => c.monitor.timer = some i → c.due ≤ c.now
  | .happens _ => True

/-- Whether a step leaves it to the timer to bring a trigger about. -/
def Leaves (c : Clocked) (st : ClockStep) : Prop :=
  ∀ e, st = .happens e → c.monitor.Leaves e

/-- Some number of passes have begun. -/
def Begun (n : Nat) (c : Clocked) (_ : ClockStep) : Prop :=
  c.monitor.passesStarted = n

def run (c : Clocked) (steps : List ClockStep) : Clocked :=
  steps.foldl step c

/-- Something holds before each of some steps. -/
def Throughout (P : Clocked → ClockStep → Prop) : Clocked → List ClockStep → Prop
  | _, [] => True
  | c, st :: steps => P c st ∧ Throughout P (c.step st) steps

@[simp] theorem run_nil : c.run [] = c :=
  rfl

@[simp] theorem run_cons : c.run (st :: ys) = (c.step st).run ys :=
  rfl

@[simp] theorem run_append : c.run (xs ++ ys) = (c.run xs).run ys := by
  simp [run]

theorem throughout_append :
    Throughout P c (xs ++ ys) ↔ Throughout P c xs ∧ Throughout P (c.run xs) ys := by
  induction xs generalizing c with
  | nil => simp [Throughout]
  | cons st xs ih => simp [Throughout, ih, and_assoc]

/-- What holds before each of some steps and after the last of them holds at every moment. -/
theorem begun_at (h : Throughout (Begun n) c ys) (hl : (c.run ys).monitor.passesStarted = n)
    {x y : List ClockStep} (hx : ys = x ++ y) : (c.run x).monitor.passesStarted = n := by
  subst hx
  cases y with
  | nil => simpa using hl
  | cons st y => exact (throughout_append.mp h).2.1

theorem now_step (c : Clocked) (st : ClockStep) : (c.step st).now = c.now + st.span := by
  cases st <;> simp [step, ClockStep.span]

theorem now_run (c : Clocked) (ys : List ClockStep) : (c.run ys).now = c.now + spanOf ys := by
  induction ys generalizing c with
  | nil => simp
  | cons st ys ih => rw [run_cons, ih, now_step, spanOf_cons, add_assoc]

theorem monitor_run (c : Clocked) (ys : List ClockStep) :
    (c.run ys).monitor = (eventsOf ys).foldl Monitor.step c.monitor := by
  induction ys generalizing c with
  | nil => rfl
  | cons st ys ih =>
      rw [run_cons, ih]
      cases st <;> rfl

theorem span_nonneg (h : Throughout Allows c ys) : 0 ≤ spanOf ys := by
  induction ys generalizing c with
  | nil => simp
  | cons st ys ih =>
      rw [spanOf_cons]
      refine add_nonneg ?_ (ih h.2)
      cases st with
      | waits d => exact h.1.1
      | happens e => exact le_rfl

/-- A monitor that some history leads to. -/
def Reached (s : MonitorSettings) (c : Clocked) : Prop :=
  ∃ past, Course s past c.monitor

theorem Reached.due_eq (h : Reached s c) : c.due = c.started + s.debounce.seconds := by
  obtain ⟨past, h⟩ := h
  rw [due, h.settings_eq]

theorem Reached.step (h : Reached s c) (st : ClockStep) : Reached s (c.step st) := by
  obtain ⟨past, h⟩ := h
  cases st with
  | waits d => exact ⟨past, h⟩
  | happens e => exact ⟨_, h.step e⟩

theorem Reached.run (h : Reached s c) (ys : List ClockStep) : Reached s (c.run ys) := by
  induction ys generalizing c with
  | nil => exact h
  | cons st ys ih => exact ih (h.step st)

/-- The timer runs, nothing else can come to a trigger, and some number of passes have begun. -/
structure Armed (n : Nat) (c : Clocked) : Prop where
  calm : Calm c.monitor
  idle : ∀ t, ¬ Summoned c.monitor t
  armed : c.monitor.timer ≠ none
  early : c.now ≤ c.due
  begun : c.monitor.passesStarted = n

/-- A change has the timer run from now on. -/
theorem Armed.of_change (hr : Reached s c) (hs : 0 ≤ s.debounce.seconds) (hc : Calm c.monitor)
    (hi : ∀ t, ¬ Summoned c.monitor t) (hn : c.monitor.passesStarted = n) :
    Armed n (c.step (.happens .recordsChanged)) ∧
      (c.step (.happens .recordsChanged)).started = c.now := by
  have hr' := hr.step (.happens .recordsChanged)
  obtain ⟨past, h⟩ := hr
  obtain ⟨hcalm, ht, hnext, hp, hsum⟩ := h.changed hc
  have hstart : (c.step (.happens .recordsChanged)).started = c.now := by
    simp [Clocked.step, hnext]
  refine ⟨⟨hcalm, fun t ht => hi t ((hsum t).mp ht), ?_, ?_, hp.trans hn⟩, hstart⟩
  · simp [Clocked.step, ht]
  · rw [hr'.due_eq, hstart]
    simpa [Clocked.step] using hs

/-- While the timer runs, only a change starts it afresh. -/
theorem Armed.step (hr : Reached s c) (hs : 0 ≤ s.debounce.seconds) (h : Armed n c)
    (ha : c.Allows st) (hl : c.Leaves st)
    (he : ∀ i, st = .happens (.elapsed i) → c.monitor.timer ≠ some i) :
    Armed n (c.step st) ∧
      (st ≠ .happens .recordsChanged → (c.step st).started = c.started) ∧
      (st = .happens .recordsChanged → (c.step st).started = c.now) := by
  cases st with
  | waits span =>
      refine ⟨⟨h.calm, h.idle, h.armed, ?_, h.begun⟩, fun _ => rfl, by simp⟩
      exact ha.2.2 h.armed
  | happens e =>
      by_cases hc : e = .recordsChanged
      · subst hc
        obtain ⟨harmed, hstart⟩ := Armed.of_change hr hs h.calm h.idle h.begun
        exact ⟨harmed, fun hn => absurd rfl hn, fun _ => hstart⟩
      · obtain ⟨past, hcourse⟩ := hr
        have hk := hcourse.step_quiet h.calm (hl e rfl) hc (fun i hi => he i (by rw [hi]))
          fun u _ => h.idle u
        have hstart : (c.step (.happens e)).started = c.started := by
          simp [Clocked.step, hk.nextTimer]
        refine ⟨⟨hk.calm, fun t ht => h.idle t ((hk.summoned t).mp ht), ?_, ?_,
          hk.passesStarted.trans h.begun⟩, fun _ => hstart, by simp [hc]⟩
        · simpa [Clocked.step, hk.timer] using h.armed
        · have hset : (c.monitor.step e).settings = c.monitor.settings := by
            rw [(hcourse.step e).settings_eq, hcourse.settings_eq]
          have := h.early
          rw [Clocked.due, hstart]
          simpa [Clocked.step, hset, Clocked.due] using this

/-- The timer runs on through steps that end before the delay is over, changes or not. -/
theorem Armed.through {base : ℚ} (hr : Reached s c) (hs : 0 ≤ s.debounce.seconds)
    (h : Armed n c) (hb : base ≤ c.started) (hbn : base ≤ c.now) (ha : Throughout Allows c ys)
    (hl : Throughout Leaves c ys) (hlt : c.now + spanOf ys < base + s.debounce.seconds) :
    Armed n (c.run ys) ∧ Throughout (Begun n) c ys := by
  induction ys generalizing c with
  | nil => exact ⟨h, trivial⟩
  | cons st ys ih =>
      obtain ⟨hst, hrest⟩ := ha
      have hspan : 0 ≤ st.span := by
        cases st with
        | waits d => exact hst.1
        | happens e => exact le_rfl
      have htail := span_nonneg hrest
      rw [spanOf_cons] at hlt
      -- the timer is not due yet
      have he (i : Nat) (hi : st = .happens (.elapsed i)) : c.monitor.timer ≠ some i := by
        subst hi
        intro ht
        have hdue : c.due ≤ c.now := hst ht
        rw [hr.due_eq] at hdue
        linarith
      obtain ⟨harmed, hsame, hnew⟩ := h.step hr hs hst hl.1 he
      have hb' : base ≤ (c.step st).started := by
        by_cases hc : st = .happens .recordsChanged
        · rw [hnew hc]
          exact hbn
        · rw [hsame hc]
          exact hb
      have hbn' : base ≤ (c.step st).now := by
        rw [now_step]
        linarith
      obtain ⟨hlast, hbegun⟩ := ih (hr.step st) harmed hb' hbn' hrest hl.2
        (by rw [now_step]; linarith)
      exact ⟨hlast, h.begun, hbegun⟩

/-- Without a change the timer runs down when it is due. -/
theorem Armed.fires (hr : Reached s c) (hs : 0 ≤ s.debounce.seconds) (h : Armed n c)
    (ha : Throughout Allows c ys) (hl : Throughout Leaves c ys)
    (hc : .happens .recordsChanged ∉ ys) (hlong : c.due < c.now + spanOf ys) :
    ∃ idle i later, ys = idle ++ .happens (.elapsed i) :: later ∧
      (c.run idle).monitor.timer = some i ∧ (c.run idle).now = c.due ∧ Armed n (c.run idle) ∧
      Throughout (Begun n) c idle := by
  induction ys generalizing c with
  | nil =>
      have := h.early
      rw [spanOf_nil, add_zero] at hlong
      linarith
  | cons st ys ih =>
      obtain ⟨hst, hrest⟩ := ha
      simp only [List.mem_cons, not_or] at hc
      by_cases he : ∃ i, st = .happens (.elapsed i) ∧ c.monitor.timer = some i
      · obtain ⟨i, rfl, ht⟩ := he
        exact ⟨[], i, ys, rfl, ht, le_antisymm h.early (hst ht), h, trivial⟩
      · obtain ⟨harmed, hsame, -⟩ :=
          h.step hr hs hst hl.1 fun i hi ht => he ⟨i, hi, ht⟩
        have hr' := hr.step st
        have hdue : (c.step st).due = c.due := by
          rw [hr'.due_eq, hr.due_eq, hsame fun hst => hc.1 hst.symm]
        obtain ⟨idle, i, later, rfl, ht, hnow, hlast, hbegun⟩ := ih hr' harmed hrest hl.2 hc.2
          (by rw [hdue, now_step]; simpa [add_assoc] using hlong)
        exact ⟨st :: idle, i, later, rfl, ht, by rw [run_cons, hnow, hdue], hlast,
          h.begun, hbegun⟩

/-- The timer has run down, and the task that it began waits for its first turn. -/
structure Fired (n t : Nat) (c : Clocked) : Prop where
  calm : Calm c.monitor
  summoned : ∀ u, Summoned c.monitor u ↔ u = t
  disarmed : c.monitor.timer = none
  free : c.monitor.inFlight = false
  begun : c.monitor.passesStarted = n

/-- When the timer runs down while no pass is under way, a task is to come to its trigger. -/
theorem Armed.fired (hr : Reached s c) (h : Armed n c) {i : Nat}
    (hi : c.monitor.timer = some i) (hf : c.monitor.inFlight = false) :
    Fired n c.monitor.nextTask (c.step (.happens (.elapsed i))) := by
  obtain ⟨past, hcourse⟩ := hr
  obtain ⟨hcalm, ht, hp, hfl, hsum⟩ := hcourse.elapsed h.calm hi h.idle
  exact ⟨hcalm, hsum, ht, hfl.trans hf, hp.trans h.begun⟩

/-- No time passes until the task has its first turn. -/
theorem Fired.begins (hr : Reached s c) (h : Fired n t c) (ha : Throughout Allows c ys)
    (hl : Throughout Leaves c ys) (hc : .happens .recordsChanged ∉ ys) (hlong : 0 < spanOf ys) :
    ∃ between later, ys = between ++ .happens (.begins t) :: later ∧ spanOf between = 0 ∧
      Fired n t (c.run between) ∧ Throughout (Begun n) c between := by
  induction ys generalizing c with
  | nil => simp at hlong
  | cons st ys ih =>
      simp only [List.mem_cons, not_or] at hc
      obtain ⟨hst, hrest⟩ := ha
      have ht : Summoned c.monitor t := (h.summoned t).mpr rfl
      cases st with
      | waits d => exact absurd ht (hst.2.1 t .elapsed)
      | happens e =>
          by_cases he : e = .begins t
          · subst he
            exact ⟨[], ys, rfl, rfl, h, trivial⟩
          · have hr' := hr.step (.happens e)
            obtain ⟨past, hcourse⟩ := hr
            have hk := hcourse.step_quiet h.calm (hl.1 e rfl) (fun he => hc.1 (by rw [he]))
              (fun i _ => by simp [h.disarmed])
              (fun u hu hsum => he (by rw [hu, (h.summoned u).mp hsum]))
            have hfree : (c.monitor.step e).inFlight = false := by
              simpa using mt hk.inFlight (by simp [h.free])
            have hfired : Fired n t (c.step (.happens e)) :=
              ⟨hk.calm, fun u => (hk.summoned u).trans (h.summoned u),
                hk.timer.trans h.disarmed, hfree, hk.passesStarted.trans h.begun⟩
            obtain ⟨between, later, rfl, hzero, hlast, hbegun⟩ := ih hr' hfired hrest hl.2 hc.2
              (by simpa [ClockStep.span] using hlong)
            exact ⟨.happens e :: between, later, rfl, by simpa [ClockStep.span] using hzero,
              hlast, h.begun, hbegun⟩

/-- Nothing is to come to a trigger. -/
structure Spent (n : Nat) (c : Clocked) : Prop where
  calm : Calm c.monitor
  idle : ∀ t, ¬ Summoned c.monitor t
  disarmed : c.monitor.timer = none
  begun : c.monitor.passesStarted = n

/-- The first turn of the task begins a pass. -/
theorem Fired.spent (hr : Reached s c) (h : Fired n t c) :
    Spent (n + 1) (c.step (.happens (.begins t))) := by
  obtain ⟨past, hcourse⟩ := hr
  obtain ⟨hcalm, ht, hp, hsum⟩ := hcourse.begins_pass h.calm ((h.summoned t).mpr rfl) h.free
  refine ⟨hcalm, fun u hu => ?_, ht.trans h.disarmed, ?_⟩
  · obtain ⟨hne, hu⟩ := (hsum u).mp hu
    exact hne ((h.summoned u).mp hu)
  · show (c.monitor.step (.begins t)).passesStarted = n + 1
    rw [hp, h.begun]

/-- Nothing begins a pass any more. -/
theorem Spent.stays (hr : Reached s c) (h : Spent n c) (hl : Throughout Leaves c ys)
    (hc : .happens .recordsChanged ∉ ys) :
    Throughout (Begun n) c ys ∧ (c.run ys).monitor.passesStarted = n := by
  induction ys generalizing c with
  | nil => exact ⟨trivial, h.begun⟩
  | cons st ys ih =>
      simp only [List.mem_cons, not_or] at hc
      have hr' := hr.step st
      have hspent : Spent n (c.step st) := by
        cases st with
        | waits d => exact ⟨h.calm, h.idle, h.disarmed, h.begun⟩
        | happens e =>
            obtain ⟨past, hcourse⟩ := hr
            have hk := hcourse.step_quiet h.calm (hl.1 e rfl) (fun he => hc.1 (by rw [he]))
              (fun i _ => by simp [h.disarmed]) fun u _ => h.idle u
            exact ⟨hk.calm, fun u hu => h.idle u ((hk.summoned u).mp hu),
              hk.timer.trans h.disarmed, hk.passesStarted.trans h.begun⟩
      obtain ⟨hbegun, hlast⟩ := ih hr' hspent hl.2 hc.2
      exact ⟨⟨h.begun, hbegun⟩, hlast⟩

/-- When the timer has just been started and no change follows, one pass begins as soon as the delay
is over. -/
theorem Armed.one_pass (hr : Reached s c) (hs : 0 ≤ s.debounce.seconds) (h : Armed n c)
    (hnew : c.started = c.now) (ha : Throughout Allows c ys) (hl : Throughout Leaves c ys)
    (hc : .happens .recordsChanged ∉ ys) (hlong : s.debounce.seconds < spanOf ys)
    (hf : ∀ x i y, ys = x ++ .happens (.elapsed i) :: y → (c.run x).monitor.timer = some i →
      (c.run x).monitor.inFlight = false) :
    ∃ idle i between t later,
      ys = idle ++ .happens (.elapsed i) :: between ++ .happens (.begins t) :: later ∧
        spanOf idle = s.debounce.seconds ∧ spanOf between = 0 ∧
        Throughout (Begun n) c (idle ++ .happens (.elapsed i) :: between) ∧
        Fired n t (c.run (idle ++ .happens (.elapsed i) :: between)) ∧
        ∀ x y, later = x ++ y →
          (c.run (idle ++ .happens (.elapsed i) :: between ++
            .happens (.begins t) :: x)).monitor.passesStarted = n + 1 := by
  have hdue : c.due = c.now + s.debounce.seconds := by
    rw [hr.due_eq, hnew]
  obtain ⟨idle, i, tail, rfl, ht, hnow, harmed, hbegun₁⟩ :=
    h.fires hr hs ha hl hc (by linarith)
  have hidle : spanOf idle = s.debounce.seconds := by
    rw [now_run, hdue] at hnow
    linarith
  rw [spanOf_append, spanOf_cons, hidle] at hlong
  rw [throughout_append] at ha hl
  simp only [List.mem_append, List.mem_cons, not_or] at hc
  have hr₁ := hr.run idle
  have hfired := harmed.fired hr₁ ht (hf idle i tail rfl ht)
  have hr₂ := hr₁.step (.happens (.elapsed i))
  obtain ⟨between, later, rfl, hzero, hfired', hbegun₂⟩ :=
    hfired.begins hr₂ ha.2.2 hl.2.2 hc.2.2 (by simpa [ClockStep.span] using hlong)
  simp only [List.mem_append, List.mem_cons, not_or] at hc
  have hr₃ := hr₂.run between
  have hl' := (throughout_append.mp hl.2.2).2.2
  obtain ⟨hbegun₃, hlast⟩ :=
    (hfired'.spent hr₃).stays (hr₃.step (.happens (.begins _))) hl' hc.2.2.2.2
  refine ⟨idle, i, between, (c.run idle).monitor.nextTask, later, by simp, hidle, hzero, ?_, ?_,
    fun x y hx => ?_⟩
  · exact throughout_append.mpr ⟨hbegun₁, harmed.begun, hbegun₂⟩
  · simpa using hfired'
  · simpa using begun_at hbegun₃ hlast hx

end Clocked

/-- A monitor that has gone through some steps from the beginning. -/
def clocked (s : MonitorSettings) (steps : List ClockStep) : Clocked :=
  (Clocked.initial s).run steps

theorem clocked_monitor (s : MonitorSettings) (steps : List ClockStep) :
    (clocked s steps).monitor = run s (eventsOf steps) :=
  (Clocked.initial s).monitor_run steps

theorem clocked_append (s : MonitorSettings) (xs ys : List ClockStep) :
    clocked s (xs ++ ys) = (clocked s xs).run ys :=
  Clocked.run_append

theorem reached_clocked (s : MonitorSettings) (steps : List ClockStep) :
    Clocked.Reached s (clocked s steps) :=
  ⟨history s (eventsOf steps), by
    rw [clocked_monitor]
    exact course_run s (eventsOf steps)⟩

end Monitor

end TableAudit

/-!
## Bursts of changes

Changes that follow each other closely enough put the timer off. When the last of them is over for
as long as the timer waits, one pass begins, with rows that are read after it.
-/

namespace TableAudit

namespace Monitor

open Clocked (Throughout Allows Begun)

variable {s : MonitorSettings} {n t : Nat} {before burst rest : List ClockStep} {d : ℚ}
variable {c : Clocked} {es : List MonitorEvent}

/-- Some changes, each of which comes less than a span of time after the one before. -/
inductive Burst (d : ℚ) : List ClockStep → Prop
  | single : Burst d [.happens .recordsChanged]
  | more {burst between : List ClockStep} :
      Burst d burst → spanOf between < d → Burst d (burst ++ between ++ [.happens .recordsChanged])

/-- After a burst the timer has just been started, and no pass has begun meanwhile. The last change
was made while the monitor ran. -/
theorem Burst.armed (hb : Burst s.debounce.seconds burst) (hr : c.Reached s)
    (hs : 0 ≤ s.debounce.seconds) (hc : Calm c.monitor) (hi : ∀ t, ¬ Summoned c.monitor t)
    (hn : c.monitor.passesStarted = n) (ha : Throughout Allows c burst)
    (hl : Throughout Clocked.Leaves c burst) :
    Clocked.Armed n (c.run burst) ∧ (c.run burst).started = (c.run burst).now ∧
      Throughout (Begun n) c burst ∧
      ∃ changed, burst = changed ++ [.happens .recordsChanged] ∧
        (c.run changed).monitor.running = true := by
  induction hb with
  | single =>
      obtain ⟨harmed, hstart⟩ := Clocked.Armed.of_change hr hs hc hi hn
      exact ⟨harmed, hstart, ⟨hn, trivial⟩, [], rfl, hc.running⟩
  | @more burst between hb hlt ih =>
      simp only [Clocked.throughout_append] at ha hl
      obtain ⟨⟨ha₁, ha₂⟩, -⟩ := ha
      obtain ⟨⟨hl₁, hl₂⟩, -⟩ := hl
      obtain ⟨harmed, hstart, hbegun, -⟩ := ih ha₁ hl₁
      have hr₁ := hr.run burst
      have hdue : (c.run burst).now + spanOf between <
          (c.run burst).now + s.debounce.seconds := by linarith
      obtain ⟨harmed', hbegun'⟩ := harmed.through hr₁ hs hstart.ge le_rfl ha₂ hl₂ hdue
      have hr₂ := hr₁.run between
      obtain ⟨hlast, hstart'⟩ :=
        Clocked.Armed.of_change hr₂ hs harmed'.calm harmed'.idle harmed'.begun
      simp only [Clocked.run_append, Clocked.throughout_append]
      exact ⟨hlast, hstart', ⟨⟨hbegun, hbegun'⟩, harmed'.begun, trivial⟩, burst ++ between,
        by simp, by simpa using harmed'.calm.running⟩

/-- What the pass of a task checks after some events, and whatever else happens, is rows of which
the reading began after earlier ones. -/
def ReadsAfter (s : MonitorSettings) (es es' : List MonitorEvent) (t : Nat) : Prop :=
  ∀ more p pass, Passing (run s (es ++ es' ++ more)).tasks t p → p.stage = .checking pass →
    ∃ u q p' columns, lastOf Act.read? (history s (es ++ es' ++ more)) = some (u, q, pass.rows) ∧
      .loads u p' columns ∈ actsFrom (run s es) (es' ++ more)

/-- A task that has its first turn after a change does not check rows from before. -/
theorem readsAfter_change {es' later : List MonitorEvent} (hr : (run s es).running = true)
    (ht : Summoned (run s (es ++ [.recordsChanged] ++ es')) t) :
    ReadsAfter s (es ++ [.recordsChanged]) (es' ++ later) t := by
  intro more p pass hp hs
  have hturn : (run s es).turn .recordsChanged = [.changes] := by simp [turn, taskOf?, hr]
  have hbefore : Rowless (history s es) t := by
    have hc := course_run s (es ++ [.recordsChanged] ++ es')
    have hrowless := hc.rowless_of_due (Or.inl ⟨.elapsed, ht, Or.inr rfl⟩)
    intro g hg
    refine hrowless g ?_
    rw [List.append_assoc, history_append]
    exact List.mem_append_left _ hg
  have hc := course_run s (es ++ [.recordsChanged] ++ (es' ++ later) ++ more)
  have hhist : history s (es ++ [.recordsChanged] ++ (es' ++ later) ++ more) =
      history s es ++ .changes ::
        actsFrom (run s (es ++ [.recordsChanged])) (es' ++ later ++ more) := by
    rw [List.append_assoc _ (es' ++ later), history_append, history_concat, hturn]
    simp
  obtain ⟨u, q, hlast, hfetched⟩ := hc.rows_known.checking t p pass hp hs
  rw [hhist] at hfetched
  obtain ⟨p', columns, hl⟩ := hfetched.after_change hbefore
  exact ⟨u, q, p', columns, hlast, hl⟩

/-- A burst of changes to a monitor that is left to its timer, and what follows until more time has
passed than the timer waits. No pass is under way when the timer runs down. -/
structure Lull (s : MonitorSettings) (before burst rest : List ClockStep) : Prop where
  span : s.debounce.IsSpan
  timed : Throughout Allows (Clocked.initial s) (before ++ burst ++ rest)
  calm : Calm (clocked s before).monitor
  idle : ∀ t, ¬ Summoned (clocked s before).monitor t
  close : Burst s.debounce.seconds burst
  left : Throughout Clocked.Leaves (clocked s before) (burst ++ rest)
  last : .happens .recordsChanged ∉ rest
  long : s.debounce.seconds < spanOf rest
  free : ∀ x i y, rest = x ++ .happens (.elapsed i) :: y →
    (clocked s (before ++ burst ++ x)).monitor.timer = some i →
      (clocked s (before ++ burst ++ x)).monitor.inFlight = false

/-- The number of passes that have begun after some steps. -/
def passesAt (s : MonitorSettings) (steps : List ClockStep) : Nat :=
  (clocked s steps).monitor.passesStarted

/-- At every moment one timer at most goes on running, and it is the one that the monitor holds.
After a burst of changes no pass begins before the delay is over, and exactly one begins then. What
it checks is rows of which the reading began after the last change. -/
theorem bursts_coalesced (s : MonitorSettings) :
    (∀ es i, LiveTimer s es i ↔ (run s es).timer = some i) ∧
      ∀ before burst rest, Lull s before burst rest →
        ∃ idle i between t later,
          rest = idle ++ .happens (.elapsed i) :: between ++ .happens (.begins t) :: later ∧
            spanOf idle = s.debounce.seconds ∧ spanOf between = 0 ∧
            (∀ x y, burst ++ idle ++ .happens (.elapsed i) :: between = x ++ y →
              passesAt s (before ++ x) = passesAt s before) ∧
            (∀ x y, later = x ++ y →
              passesAt s (before ++ burst ++ idle ++ .happens (.elapsed i) :: between ++
                .happens (.begins t) :: x) = passesAt s before + 1) ∧
            ReadsAfter s (eventsOf (before ++ burst)) (eventsOf rest) t := by
  refine ⟨liveTimer_iff s, fun before burst rest h => ?_⟩
  have hr := reached_clocked s before
  have ha := h.timed
  rw [List.append_assoc, Clocked.throughout_append, Clocked.throughout_append] at ha
  obtain ⟨-, ha₁, ha₂⟩ := ha
  obtain ⟨hl₁, hl₂⟩ := Clocked.throughout_append.mp h.left
  obtain ⟨harmed, hnew, hbegun, changed, hchanged, hrunning⟩ :=
    h.close.armed hr h.span.2 h.calm h.idle rfl ha₁ hl₁
  have hfree := h.free
  simp only [clocked_append] at hfree
  obtain ⟨idle, i, between, t, later, hrest, hidle, hzero, hbegun', hfired, hafter⟩ :=
    harmed.one_pass (hr.run burst) h.span.2 hnew ha₂ hl₂ h.last h.long hfree
  refine ⟨idle, i, between, t, later, hrest, hidle, hzero, fun x y hx => ?_, fun x y hx => ?_, ?_⟩
  · rw [List.append_assoc] at hx
    rw [passesAt, clocked_append]
    refine Clocked.begun_at (Clocked.throughout_append.mpr ⟨hbegun, hbegun'⟩) ?_ hx
    rw [Clocked.run_append]
    exact hfired.begun
  · have hx' := hafter x y hx
    simpa [passesAt, clocked_append] using hx'
  · -- the task has its first turn after the last change
    have hsum := (hfired.summoned t).mpr rfl
    subst hchanged hrest
    rw [← clocked_append, ← clocked_append, clocked_monitor] at hsum
    rw [← clocked_append, clocked_monitor] at hrunning
    have hev : eventsOf (before ++ (changed ++ [.happens .recordsChanged])) =
        eventsOf (before ++ changed) ++ [.recordsChanged] := by
      simp [eventsOf, ClockStep.event?]
    rw [eventsOf_append, hev] at hsum
    have hsplit : eventsOf
        (idle ++ .happens (.elapsed i) :: between ++ .happens (.begins t) :: later) =
        eventsOf (idle ++ .happens (.elapsed i) :: between) ++
          eventsOf (.happens (.begins t) :: later) := eventsOf_append
    rw [hev, hsplit]
    exact readsAfter_change hrunning hsum

/-- A table is attached and a first pass is made. -/
def firstPass : List ClockStep :=
  [.happens (.request .start), .happens (.begins 0),
    .happens (.replied 0 (.selection ⟨.text "orders", .null⟩)),
    .happens (.replied 0 (.opened true)), .happens (.replied 0 (.table (.fields []))),
    .happens (.replied 0 (.table (.page ⟨[], false, .null⟩)))]

/-- Two changes, half a second apart. -/
def twoChanges : List ClockStep :=
  [.happens .recordsChanged, .waits (1 / 2), .happens .recordsChanged]

/-- The second timer runs down, and its task makes a pass. -/
def onePassLater : List ClockStep :=
  [.waits 1, .happens (.elapsed 1), .happens (.begins 1), .waits 1]

theorem not_ready_of_passing {xs : List Task} {k : TaskKind}
    (h : xs.all (·.phase.isPassing) = true) : ¬ At xs t k .ready := by
  intro hk
  have hp := List.all_eq_true.mp h _ (List.mem_of_find?_eq_some hk)
  simp [Phase.isPassing] at hp

theorem twoChanges_lull : Lull watching firstPass twoChanges onePassLater where
  span := by
    refine ⟨by simp [watching], ?_⟩
    norm_num [watching, Number.seconds]
  timed := by
    refine ⟨trivial, trivial, trivial, trivial, trivial, trivial, trivial, ?_, trivial, ?_, ?_,
      trivial, ?_, trivial⟩
    · refine ⟨by norm_num, fun t k => not_ready_of_passing rfl, fun _ => ?_⟩
      show (0 : ℚ) + 1 / 2 ≤ 0 + (1 : ℤ)
      norm_num
    · refine ⟨by norm_num, fun t k => not_ready_of_passing rfl, fun _ => ?_⟩
      show (0 : ℚ) + 1 / 2 + 1 ≤ 0 + 1 / 2 + (1 : ℤ)
      norm_num
    · intro _
      show (0 : ℚ) + 1 / 2 + (1 : ℤ) ≤ 0 + 1 / 2 + 1
      norm_num
    · exact ⟨by norm_num, fun t k => not_ready_of_passing rfl, fun hn => absurd rfl hn⟩
  calm := ⟨rfl, rfl, fun t k ph h => by cases (show none = some (⟨t, k, ph⟩ : Task) from h)⟩
  idle t := not_ready_of_passing rfl
  close := by
    have hspan : spanOf [.waits (1 / 2)] < watching.debounce.seconds := by
      norm_num [watching, Number.seconds, ClockStep.span]
    exact Burst.single.more hspan
  left := by
    refine ⟨?_, ?_, ?_, ?_, ?_, ?_, ?_, trivial⟩ <;> rintro e ⟨⟩ <;> trivial
  last := by simp [onePassLater]
  long := by
    norm_num [watching, Number.seconds, onePassLater, ClockStep.span]
  free := by
    intro x i y hx _
    obtain _ | ⟨a, _ | ⟨b, _ | ⟨c, _ | ⟨d, x⟩⟩⟩⟩ := x
    · simp [onePassLater] at hx
    · obtain ⟨rfl, -⟩ : .waits 1 = a ∧ _ := by simpa [onePassLater] using hx
      rfl
    · simp [onePassLater] at hx
    · simp [onePassLater] at hx
    · simp [onePassLater] at hx

/-- Two changes half a second apart are followed by one pass, a second after the second one. -/
theorem twoChanges_coalesced :
    Lull watching firstPass twoChanges onePassLater ∧
      passesAt watching (firstPass ++ twoChanges ++ onePassLater) =
        passesAt watching firstPass + 1 := by
  have h := twoChanges_lull
  refine ⟨h, ?_⟩
  obtain ⟨idle, i, between, t, later, hrest, -, -, -, hafter, -⟩ :=
    (bursts_coalesced watching).2 firstPass twoChanges onePassLater h
  rw [hrest]
  simpa using hafter later [] (by simp)

end Monitor

end TableAudit
