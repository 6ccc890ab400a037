import TableAudit.Command.Audit
import TableAudit.Proofs.Fault
import TableAudit.Proofs.Http.Course
import TableAudit.Proofs.Pass.Schedule
import TableAudit.Proofs.Remote.Exchange

/-!
# Exit codes

A run that does not break off exits clean if its table was read and nothing was found, and otherwise
with the code for findings if its table was read and a notice, where one is asked for, was
delivered or has no address. In every other case it exits as failed. What it prints is what it
found.
-/

namespace TableAudit.Command

open TableAudit.Http TableAudit.Http.Talk
open TableAudit.Calendar (Moment)

variable {pages code : Nat} {i : Invocation} {o : Options} {s : Settings} {w : Supply}
variable {columns : List Column} {rows : List Row} {r : Report} {rest : List Reply}

/-! ### What a run comes to -/

/-- A setting is a text that is not empty. -/
def IsFilled (v : Value) (text : String) : Prop :=
  v = .text text ∧ text ≠ ""

/-- The settings of a run are loaded, and those are there without which no run is possible. -/
structure Starts (i : Invocation) (o : Options) (s : Settings) : Prop where
  readable : i.folder.find o.settingsPath ≠ .folder
  loaded : settingsOf o (i.folder.text? o.settingsPath) i = .ok s
  accessToken : ∃ text, IsFilled s.remote.accessToken text
  appToken : ∃ text, IsFilled s.remote.appToken text
  tableId : ∃ text, IsFilled s.remote.tableId text

/-- All columns and rows of the table are read, and some replies are left. -/
def Reads (pages : Nat) (s : Settings) (w : Supply) (columns : List Column) (rows : List Row)
    (rest : List Reply) : Prop :=
  ∃ l, locationOf s.remote = .ok l ∧
    let c := ((fetch l pages s).run.run none).course w
    c.result.1 = .ok (columns, rows) ∧ c.left.replies = rest

/-- The columns of a table are put to their rules between two moments. -/
def Finds (s : Settings) (columns : List Column) (rows : List Row) (begun ended : Moment)
    (r : Report) : Prop :=
  ∃ options,
    Pass.options? (numberOf s.engine.chunkSize) (messagesOf s.messages) begun = some options ∧
      (PassSchedule.run (Pass.start options rows columns) Session.fresh).result ended.zuluText =
        .ok (some r)

/-- A run gets as far as a report on its table. -/
structure Reports (pages : Nat) (i : Invocation) (o : Options) (w : Supply) (s : Settings)
    (columns : List Column) (rows : List Row) (rest : List Reply) (r : Report) : Prop where
  starts : Starts i o s
  reads : Reads pages s w columns rows rest
  finds : Finds s columns rows (w.times 0) (w.times 1) r

/-- A notice is delivered to the address in the settings, if there is one. -/
def Notified (s : Settings) (replies : List Reply) : Prop :=
  ∀ url, IsFilled s.notice.webhookUrl url →
    ∃ p, policyOf s.retry = .ok p ∧ Notice.Succeeds p.attempts.toNat replies

/-- Nothing is found in the table. -/
def EndsClean (pages : Nat) (i : Invocation) (o : Options) (w : Supply) : Prop :=
  ∃ s columns rows rest r, Reports pages i o w s columns rows rest r ∧
    r.violations = [] ∧ r.issues = []

/-- Something is found in the table, and a notice of violations is delivered where it can be. -/
def EndsFound (pages : Nat) (i : Invocation) (o : Options) (w : Supply) : Prop :=
  ∃ s columns rows rest r, Reports pages i o w s columns rows rest r ∧
    (r.violations ≠ [] ∨ r.issues ≠ []) ∧
      (o.notify = true → r.violations ≠ [] → Notified s rest)

theorem Reads.unique {columns' : List Column} {rows' : List Row} {rest' : List Reply}
    (h : Reads pages s w columns rows rest) (h' : Reads pages s w columns' rows' rest') :
    columns = columns' ∧ rows = rows' ∧ rest = rest' := by
  obtain ⟨l, hl, hread, hrest⟩ := h
  obtain ⟨l', hl', hread', hrest'⟩ := h'
  obtain rfl := Except.ok.inj (hl.symm.trans hl')
  obtain ⟨hcolumns, hrows⟩ := Prod.mk.inj (Except.ok.inj (hread.symm.trans hread'))
  exact ⟨hcolumns, hrows, hrest.symm.trans hrest'⟩

theorem Finds.unique {begun ended : Moment} {r' : Report}
    (h : Finds s columns rows begun ended r) (h' : Finds s columns rows begun ended r') :
    r = r' := by
  obtain ⟨options, hoptions, hresult⟩ := h
  obtain ⟨options', hoptions', hresult'⟩ := h'
  obtain rfl := Option.some.inj (hoptions.symm.trans hoptions')
  exact Option.some.inj (Except.ok.inj (hresult.symm.trans hresult'))

/-- A run has at most one report. -/
theorem Reports.unique {s' : Settings} {columns' : List Column} {rows' : List Row}
    {rest' : List Reply} {r' : Report} (h : Reports pages i o w s columns rows rest r)
    (h' : Reports pages i o w s' columns' rows' rest' r') :
    s = s' ∧ columns = columns' ∧ rows = rows' ∧ rest = rest' ∧ r = r' := by
  obtain rfl := Except.ok.inj (h.starts.loaded.symm.trans h'.starts.loaded)
  obtain ⟨rfl, rfl, rfl⟩ := h.reads.unique h'.reads
  exact ⟨rfl, rfl, rfl, rfl, h.finds.unique h'.finds⟩

/-! ### Settings -/

theorem filled?_eq_some {v : Value} {text : String} : filled? v = some text ↔ IsFilled v text := by
  cases v with
  | text t =>
      by_cases ht : t = ""
      · have hnone : filled? (.text t) = none := if_pos (by simp [ht])
        rw [hnone]
        exact iff_of_false nofun fun h => h.2 (Value.text.inj h.1 ▸ ht)
      · have hsome : filled? (.text t) = some t := if_neg (by simp [ht])
        rw [hsome, Option.some.injEq, IsFilled, Value.text.injEq]
        exact ⟨fun h => ⟨h, h ▸ ht⟩, fun h => h.1⟩
  | _ => simp [filled?, IsFilled, Value.text?]

theorem filled?_eq_none {v : Value} : filled? v = none ↔ ∀ text, ¬ IsFilled v text := by
  simp only [← filled?_eq_some, Option.eq_none_iff_forall_ne_some, ne_eq]

theorem missing_isEmpty_iff : (missing s).isEmpty = true ↔
    (∃ text, IsFilled s.remote.accessToken text) ∧ (∃ text, IsFilled s.remote.appToken text) ∧
      ∃ text, IsFilled s.remote.tableId text := by
  simp only [← filled?_eq_some, ← Option.isSome_iff_exists]
  rw [missing, List.isEmpty_iff, List.map_eq_nil_iff, List.filter_eq_nil_iff]
  simp [needed, Option.isSome_iff_ne_none]

/-! ### Notices -/

/-- How a run ends after a notice. -/
def afterDelivery : Except Notice.DeliveryError Unit → Talk Ending
  | .ok () => return .done .found
  | .error (.undelivered e) => do
    note Log.error ("notify: " ++ Notice.undeliveredText e.longText)
    return .done .failed
  | .error .noAttempt => return .broken .noAttempt
  | .error (.fault f) => return .broken (.fault f)

theorem seen_notify (s : Settings) (rows : List Row) (r : Report) (w : Supply) {url : String}
    (hurl : filled? s.notice.webhookUrl = some url) :
    ∃ message, ((notify s rows r).course w).seen =
      match policyOf s.retry with
      | .error b => (.broken b, [])
      | .ok p => ((Notice.deliver p url message >>= afterDelivery).course w).seen := by
  refine ⟨Notice.message (wordingOf s.notice) (ProblemSummary.ofViolations r.violations)
    (Notice.lastModifier? rows r.violations), ?_⟩
  rw [notify, hurl]
  dsimp only
  split
  · cases policyOf s.retry with
    | error b => rfl
    | ok p => rfl
  · cases policyOf s.retry with
    | error b => rfl
    | ok p => rfl

/-- A notice prints nothing, and unless it breaks off it ends with something found just if it is
delivered. -/
theorem notify_cases (s : Settings) (rows : List Row) (r : Report) (w : Supply) :
    ∃ e : Ending, ((notify s rows r).course w).seen = (e, []) ∧ ∀ code, e.exitCode? = some code →
      code = 2 ∧ Notified s w.replies ∨ code = 1 ∧ ¬ Notified s w.replies := by
  cases hurl : filled? s.notice.webhookUrl with
  | none =>
      refine ⟨.done .found, by rw [notify, hurl]; rfl, fun code hcode => .inl ?_⟩
      exact ⟨(Option.some.inj hcode).symm, fun url h => absurd h (filled?_eq_none.mp hurl url)⟩
  | some url =>
      have hnotified : Notified s w.replies ↔
          ∃ p, policyOf s.retry = .ok p ∧ Notice.Succeeds p.attempts.toNat w.replies :=
        ⟨fun h => h url (filled?_eq_some.mp hurl), fun h _ _ => h⟩
      obtain ⟨message, hseen⟩ := seen_notify s rows r w hurl
      rw [hseen, hnotified]
      cases policyOf s.retry with
      | error b => exact ⟨_, rfl, nofun⟩
      | ok p =>
          simp only [Except.ok.injEq, exists_eq_left']
          rw [(Notice.quiet_deliver).seen_bind]
          obtain ⟨h, hs⟩ | ⟨⟨e, h⟩, hs⟩ | h | ⟨f, h⟩ := Notice.deliver_cases p url message w
          · rw [h]
            exact ⟨_, rfl, fun code hcode => .inl ⟨(Option.some.inj hcode).symm, hs⟩⟩
          · rw [h]
            exact ⟨_, rfl, fun code hcode => .inr ⟨(Option.some.inj hcode).symm, hs⟩⟩
          · rw [h]
            exact ⟨_, rfl, nofun⟩
          · rw [h]
            exact ⟨_, rfl, nofun⟩

/-! ### Reports -/

theorem chunkSize_ne_zero {size : Number} {messages : Messages} {now : Moment}
    {options : PassOptions} (h : Pass.options? size messages now = some options) :
    options.chunkSize ≠ some 0 := by
  rw [Pass.options?] at h
  split at h
  next => cases h
  next hle =>
    obtain rfl := Option.some.inj h
    cases size with
    | float x => exact nofun
    | int n =>
        have hpos : 0 ≤ n ∧ n ≠ 0 := by
          simpa [Number.le, Number.compare?, Int.compare_eq_lt, Int.compare_eq_eq] using hle
        intro hzero
        have hnat : n.toNat = 0 := Option.some.inj hzero
        omega

/-- A report counts every column once, and every row. -/
theorem Finds.counts {begun ended : Moment} (h : Finds s columns rows begun ended r) :
    r.columnsTotal = columns.length ∧ r.columnsValidated + r.columnsSkipped = columns.length ∧
      r.totalRows = rows.length := by
  obtain ⟨options, hoptions, hresult⟩ := h
  have hfresh := ColumnRun.faithful_fresh options fun _ => columns.map (·.name)
  obtain ⟨f, herror, -⟩ | ⟨outs, hok, houts⟩ := PassSchedule.result_cases
    (chunkSize_ne_zero hoptions) (fun c hc => List.mem_map_of_mem hc) hfresh rows ended.zuluText
  · rw [hresult] at herror
    cases herror
  · rw [hresult] at hok
    obtain rfl := Option.some.inj (Except.ok.inj hok)
    have hlength := houts.length_eq
    refine ⟨hlength.symm, ?_, rfl⟩
    have hle := List.length_filter_le (·.status = .validated) (outs.map (·.stat))
    rw [List.length_map] at hle
    simp only [Pass.reportOf]
    omega

/-- The summary of a report up to the time that it took. -/
def summaryFront (r : Report) : String :=
  "SUMMARY columns=" ++ toString r.columnsValidated ++ "/" ++ toString r.columnsTotal ++
    " skipped=" ++ toString r.columnsSkipped ++ " rows=" ++ toString r.totalRows ++
    " violations=" ++ toString r.violations.length ++ " issues=" ++ toString r.issues.length ++
    " elapsed_sec="

theorem render_front {elapsed rate : Number} {line : String}
    (h : SummaryLine.render r elapsed rate = .ok line) : ∃ tail, line = summaryFront r ++ tail := by
  simp only [SummaryLine.render, bind_ok_iff] at h
  obtain ⟨first, -, second, -, h⟩ := h
  refine ⟨first ++ " throughput_rps=" ++ second, ?_⟩
  rw [← String.append_assoc, ← String.append_assoc]
  exact (Except.ok.inj h).symm

/-- The lines of JSON for the violations of a report. -/
def jsonLines (o : Options) (r : Report) : List String :=
  if o.json then r.violations.map Violation.jsonLine else []

theorem seen_printIssues {α : Type} (issues : List Issue) (f : Unit → Talk α) (w : Supply) :
    ((printIssues issues >>= f).course w).seen = ((f ()).course w).seen := by
  induction issues with
  | nil => rfl
  | cons i issues ih => exact ih

theorem seen_notes {α : Type} (lines : List Log.Line) (f : Unit → Talk α) (w : Supply) :
    ((notes lines >>= f).course w).seen = ((f ()).course w).seen := by
  induction lines with
  | nil => rfl
  | cons l lines ih => exact ih

theorem seen_printViolations {α : Type} (json : Bool) (vs : List Violation) (f : Unit → Talk α)
    (w : Supply) :
    ((printViolations json vs >>= f).course w).seen =
      (((f ()).course w).result,
        (if json then vs.map Violation.jsonLine else []) ++ ((f ()).course w).printed) := by
  cases json with
  | false =>
      induction vs with
      | nil => rfl
      | cons v vs ih => exact ih
  | true =>
      induction vs with
      | nil => rfl
      | cons v vs ih =>
          exact congrArg (fun p : α × List String => (p.1, v.jsonLine :: p.2)) ih

/-- What is true of a run with a report that ends with a code after some printed lines. -/
structure Concludes (o : Options) (s : Settings) (rest : List Reply) (r : Report)
    (lines : List String) (code : Nat) : Prop where
  printed : ∃ tail, lines = jsonLines o r ++ [summaryFront r ++ tail]
  clean : code = 0 ↔ r.violations = [] ∧ r.issues = []
  found : code = 2 ↔ (r.violations ≠ [] ∨ r.issues ≠ []) ∧
    (o.notify = true → r.violations ≠ [] → Notified s rest)
  among : code = 0 ∨ code = 1 ∨ code = 2

theorem state_clean_iff : r.state = .clean ↔ r.violations = [] ∧ r.issues = [] := by
  rw [Report.state]
  cases r.violations <;> cases r.issues <;> simp

/-- After its report a run prints it and ends as its findings and the notice of them say. -/
theorem conclude_cases (o : Options) (s : Settings) (rows : List Row) (r : Report)
    (elapsed : Number) (w : Supply) : ∃ e lines,
    ((conclude o s rows r elapsed).course w).seen = (e, lines) ∧
      ∀ code, e.exitCode? = some code → Concludes o s w.replies r lines code := by
  rw [conclude, seen_printIssues, seen_printViolations]
  cases hrender : SummaryLine.render r elapsed (rateOf r elapsed) with
  | error f => exact ⟨_, _, rfl, nofun⟩
  | ok line =>
      have hprinted : ∃ tail, jsonLines o r ++ [line] = jsonLines o r ++ [summaryFront r ++ tail] :=
        have ⟨tail, htail⟩ := render_front hrender
        ⟨tail, by rw [htail]⟩
      by_cases hnotify : (o.notify && !r.violations.isEmpty) = true
      · obtain ⟨e, hseen, hcode⟩ := notify_cases s rows r w
        refine ⟨e, jsonLines o r ++ [line], ?_, fun code he => ?_⟩
        · dsimp only
          rw [if_pos hnotify]
          exact congrArg (fun p : Ending × List String => (p.1, jsonLines o r ++ line :: p.2)) hseen
        · rw [Bool.and_eq_true, Bool.not_eq_true', List.isEmpty_eq_false_iff] at hnotify
          obtain ⟨rfl, hsent⟩ | ⟨rfl, hsent⟩ := hcode code he
          · exact ⟨hprinted, by simp [hnotify], by simp [hnotify, hsent], by simp⟩
          · exact ⟨hprinted, by simp [hnotify], by simp [hnotify, hsent], by simp⟩
      · refine ⟨.done (if r.state = .clean then .clean else .found), jsonLines o r ++ [line], ?_,
          fun code he => ?_⟩
        · dsimp only
          rw [if_neg hnotify]
          rfl
        · have hquiet : o.notify = true → r.violations ≠ [] → Notified s w.replies := by
            intro ho hne
            exact absurd (by simp [ho, hne]) hnotify
          by_cases hclean : r.state = .clean
          · rw [if_pos hclean] at he
            obtain rfl := Option.some.inj he
            rw [state_clean_iff] at hclean
            exact ⟨hprinted, by simp [hclean], by simp [hclean], by simp⟩
          · rw [if_neg hclean] at he
            obtain rfl := Option.some.inj he
            rw [state_clean_iff, not_and_or] at hclean
            exact ⟨hprinted, iff_of_false nofun (not_and_or.mpr hclean),
              iff_of_true rfl ⟨hclean, hquiet⟩, .inr (.inr rfl)⟩

/-! ### Stages of a run -/

/-- A run ends before it has a report. -/
structure Aborted (p : Ending × List String) : Prop where
  silent : p.2 = []
  code : ∀ code, p.1.exitCode? = some code → code = 1

theorem aborted_broken (b : Breakdown) : Aborted (.broken b, []) :=
  ⟨rfl, nofun⟩

theorem aborted_failed : Aborted (.done .failed, []) :=
  ⟨rfl, fun _ h => (Option.some.inj h).symm⟩

theorem course_look {α : Type} (f : Moment → Talk α) (w : Supply) :
    ((look .done : Talk Moment) >>= f).course w = (f (w.times 0)).course w.looked :=
  rfl

theorem finds_iff {begun ended : Moment} {options : PassOptions}
    (h : Pass.options? (numberOf s.engine.chunkSize) (messagesOf s.messages) begun = some options) :
    Finds s columns rows begun ended r ↔
      (PassSchedule.run (Pass.start options rows columns) Session.fresh).result ended.zuluText =
        .ok (some r) := by
  rw [Finds, h]
  simp only [Option.some.injEq, exists_eq_left']

/-- Putting the columns to their rules leads to a report or to nothing. -/
theorem check_cases (o : Options) (s : Settings) (columns : List Column) (rows : List Row)
    (w : Supply) :
    (∃ r elapsed, Finds s columns rows (w.times 0) (w.times 1) r ∧
        ((check o s columns rows).course w).seen =
          ((conclude o s rows r elapsed).course w.looked.looked).seen) ∨
      (∀ r, ¬ Finds s columns rows (w.times 0) (w.times 1) r) ∧
        Aborted ((check o s columns rows).course w).seen := by
  rw [check, course_look]
  cases hoptions : Pass.options? (numberOf s.engine.chunkSize) (messagesOf s.messages)
      (w.times 0) with
  | none => exact .inr ⟨fun r h => by simp [Finds, hoptions] at h, aborted_broken _⟩
  | some options =>
      dsimp only
      rw [seen_notes, course_look]
      simp only [finds_iff hoptions, show w.looked.times 0 = w.times 1 from rfl]
      cases (PassSchedule.run (Pass.start options rows columns) Session.fresh).result
          (w.times 1).zuluText with
      | error f => exact .inr ⟨nofun, aborted_broken _⟩
      | ok found =>
          cases found with
          | none => exact .inr ⟨nofun, aborted_broken _⟩
          | some r => exact .inl ⟨r, _, rfl, rfl⟩

theorem orderly_fetch (l : Remote.Location) : (fetch l pages s).Orderly :=
  Remote.orderly_fields.bind fun _ => (Remote.orderly_readRows _).bind fun _ =>
    Remote.Exchange.orderly_pure _

/-- A table is read from replies that are all opened. -/
theorem Reads.takes (h : Reads pages s w columns rows rest) : Remote.Takes w.replies rest := by
  obtain ⟨l, -, hread, rfl⟩ := h
  exact (orderly_fetch l).takes none w (columns, rows) hread

/-- Reading the table leads to its columns and rows or to nothing. -/
theorem audit_cases (pages : Nat) (o : Options) (s : Settings) (w : Supply) :
    (∃ columns rows rest, Reads pages s w columns rows rest ∧
        ((audit pages o s).course w).seen =
          ((check o s columns rows).course ⟨w.times, rest⟩).seen) ∨
      (∀ columns rows rest, ¬ Reads pages s w columns rows rest) ∧
        Aborted ((audit pages o s).course w).seen := by
  rw [audit]
  cases hlocation : locationOf s.remote with
  | error b =>
      exact .inr ⟨fun _ _ _ h => by simp [Reads, hlocation] at h, aborted_broken _⟩
  | ok l =>
      have hreads {columns : List Column} {rows : List Row} {rest : List Reply} :
          Reads pages s w columns rows rest ↔
            (((fetch l pages s).run.run none).course w).result.1 = .ok (columns, rows) ∧
              (((fetch l pages s).run.run none).course w).left.replies = rest := by
        simp only [Reads, hlocation, Except.ok.injEq, exists_eq_left']
      simp only [hreads]
      rw [((orderly_fetch l).quiet none).seen_bind]
      obtain ⟨fetched, m⟩ := (((fetch l pages s).run.run none).course w).result
      cases fetched with
      | ok found => exact .inl ⟨_, _, _, ⟨rfl, rfl⟩, rfl⟩
      | error e =>
          refine .inr ⟨nofun, ?_⟩
          cases e with
          | failure m => exact aborted_failed
          | fault f => exact aborted_broken _
          | unfinished => exact aborted_broken _

theorem seen_begin : ((begin pages o s).course w).seen =
    if (missing s).isEmpty then ((audit pages o s).course w).seen else (.done .failed, []) := by
  rw [begin]
  dsimp only
  cases o.debug <;> cases (missing s).isEmpty <;> rfl

theorem loadAndRun_cases {file : Option String} (hfolder : i.folder.find o.settingsPath ≠ .folder)
    (hfile : i.folder.text? o.settingsPath = file) :
    (∃ s, Starts i o s ∧
        ((loadAndRun pages i o file).course w).seen = ((audit pages o s).course w).seen) ∨
      (∀ s, ¬ Starts i o s) ∧ Aborted ((loadAndRun pages i o file).course w).seen := by
  have hstarts {s : Settings} : Starts i o s ↔
      settingsOf o file i = .ok s ∧ (missing s).isEmpty = true := by
    rw [missing_isEmpty_iff, ← hfile]
    exact ⟨fun h => ⟨h.loaded, h.accessToken, h.appToken, h.tableId⟩,
      fun h => ⟨hfolder, h.1, h.2.1, h.2.2.1, h.2.2.2⟩⟩
  simp only [hstarts]
  rw [loadAndRun]
  cases settingsOf o file i with
  | error e =>
      refine .inr ⟨nofun, ?_⟩
      cases e with
      | mistake m => exact aborted_failed
      | badSchema => exact aborted_broken _
      | fault f => exact aborted_broken _
  | ok s =>
      dsimp only
      rw [seen_begin]
      by_cases hmissing : (missing s).isEmpty = true
      · exact .inl ⟨s, ⟨rfl, hmissing⟩, if_pos hmissing⟩
      · refine .inr ⟨fun s' h => hmissing (Except.ok.inj h.1 ▸ h.2), ?_⟩
        rw [if_neg hmissing]
        exact aborted_failed

/-- Loading the settings leads to a table or to nothing. -/
theorem runWith_cases (pages : Nat) (i : Invocation) (o : Options) (w : Supply) :
    (∃ s, Starts i o s ∧ ((runWith pages i o).course w).seen = ((audit pages o s).course w).seen) ∨
      (∀ s, ¬ Starts i o s) ∧ Aborted ((runWith pages i o).course w).seen := by
  rw [runWith]
  cases hfound : i.folder.find o.settingsPath with
  | folder => exact .inr ⟨fun s h => h.readable hfound, aborted_broken _⟩
  | missing => exact loadAndRun_cases (by simp [hfound]) (by simp [Folder.text?, hfound])
  | file text => exact loadAndRun_cases (by simp [hfound]) (by simp [Folder.text?, hfound])

/-- A run with a report concludes with it, and any other run that does not break off has failed. -/
theorem runWith_reports (pages : Nat) (i : Invocation) (o : Options) (w : Supply) :
    let c := (runWith pages i o).course w
    (∃ s columns rows rest r, Reports pages i o w s columns rows rest r ∧
        ∀ code, c.result.exitCode? = some code → Concludes o s rest r c.printed code) ∨
      (∀ s columns rows rest r, ¬ Reports pages i o w s columns rows rest r) ∧ Aborted c.seen := by
  obtain ⟨s, hstarts, hrun⟩ | ⟨hnone, habort⟩ :=
    runWith_cases pages i o w
  case inr => exact .inr ⟨fun s _ _ _ _ h => hnone s h.starts, habort⟩
  have hsettings {s' : Settings} (h : Starts i o s') : s = s' :=
    Except.ok.inj (hstarts.loaded.symm.trans h.loaded)
  obtain ⟨columns, rows, rest, hreads, haudit⟩ | ⟨hnone, habort⟩ :=
    audit_cases pages o s w
  case inr =>
    refine .inr ⟨fun s' _ _ _ _ h => ?_, hrun ▸ habort⟩
    obtain rfl := hsettings h.starts
    exact hnone _ _ _ h.reads
  obtain ⟨r, elapsed, hfinds, hcheck⟩ | ⟨hnone, habort⟩ :=
    check_cases o s columns rows ⟨w.times, rest⟩
  case inr =>
    refine .inr ⟨fun s' _ _ _ _ h => ?_, hrun ▸ haudit ▸ habort⟩
    obtain rfl := hsettings h.starts
    obtain ⟨rfl, rfl, rfl⟩ := hreads.unique h.reads
    exact hnone _ h.finds
  refine .inl ⟨s, columns, rows, rest, r, ⟨hstarts, hreads, hfinds⟩, fun code hcode => ?_⟩
  obtain ⟨e, lines, hseen, hconcludes⟩ := conclude_cases o s rows r elapsed
    (Supply.mk w.times rest).looked.looked
  obtain ⟨hresult, hprinted⟩ := Prod.mk.inj (hrun.trans (haudit.trans (hcheck.trans hseen)))
  rw [hresult] at hcode
  rw [hprinted]
  exact hconcludes code hcode

/-- What is said of some report of a run is said of the one that it has. -/
theorem Reports.exists_iff {P : Settings → List Reply → Report → Prop}
    (h : Reports pages i o w s columns rows rest r) :
    (∃ s columns rows rest r, Reports pages i o w s columns rows rest r ∧ P s rest r) ↔
      P s rest r := by
  constructor
  · rintro ⟨s', columns', rows', rest', r', h', hr⟩
    obtain ⟨rfl, rfl, rfl, rfl, rfl⟩ := h.unique h'
    exact hr
  · intro hr
    exact ⟨s, columns, rows, rest, r, h, hr⟩

theorem endsClean_iff (h : Reports pages i o w s columns rows rest r) :
    EndsClean pages i o w ↔ r.violations = [] ∧ r.issues = [] :=
  h.exists_iff (P := fun _ _ r => r.violations = [] ∧ r.issues = [])

theorem endsFound_iff (h : Reports pages i o w s columns rows rest r) :
    EndsFound pages i o w ↔ (r.violations ≠ [] ∨ r.issues ≠ []) ∧
      (o.notify = true → r.violations ≠ [] → Notified s rest) :=
  h.exists_iff (P := fun s rest r => (r.violations ≠ [] ∨ r.issues ≠ []) ∧
    (o.notify = true → r.violations ≠ [] → Notified s rest))

/-- What is printed of a report of which some replies are left: the lines of its violations if they
are asked for, and the summary, in which every column is counted once. -/
structure Shows (o : Options) (w : Supply) (columns : List Column) (rows : List Row)
    (rest : List Reply) (r : Report) (lines : List String) : Prop where
  taken : Remote.Takes w.replies rest
  counted : r.columnsValidated + r.columnsSkipped = columns.length
  printed : ∃ tail, lines = (if o.json then r.violations.map Violation.jsonLine else []) ++
    ["SUMMARY columns=" ++ toString r.columnsValidated ++ "/" ++ toString columns.length ++
      " skipped=" ++ toString r.columnsSkipped ++ " rows=" ++ toString rows.length ++
      " violations=" ++ toString r.violations.length ++ " issues=" ++ toString r.issues.length ++
      " elapsed_sec=" ++ tail]

/-- A run exits as its report says, and it prints what is in the report. Without a report it exits
as failed and prints nothing. -/
theorem exit_code_iff (ho : readArguments i.arguments = .run o)
    (hcode : ((run pages i).course w).result.exitCode? = some code) :
    (code = 0 ↔ EndsClean pages i o w) ∧ (code = 2 ↔ EndsFound pages i o w) ∧
      (code = 1 ↔ ¬ EndsClean pages i o w ∧ ¬ EndsFound pages i o w) ∧
      (∀ s columns rows rest r, Reports pages i o w s columns rows rest r →
        Shows o w columns rows rest r ((run pages i).course w).printed) ∧
      ((∀ s columns rows rest r, ¬ Reports pages i o w s columns rows rest r) →
        ((run pages i).course w).printed = []) := by
  rw [run, ho] at hcode ⊢
  dsimp only at hcode ⊢
  obtain ⟨s, columns, rows, rest, r, hreport, hconcludes⟩ | ⟨hnone, habort⟩ :=
    runWith_reports pages i o w
  · have h := hconcludes code hcode
    have hshows : Shows o w columns rows rest r ((runWith pages i o).course w).printed := by
      obtain ⟨htotal, hsum, hrows⟩ := hreport.finds.counts
      refine ⟨hreport.reads.takes, hsum, ?_⟩
      rw [← htotal, ← hrows]
      exact h.printed
    rw [endsClean_iff hreport, endsFound_iff hreport, ← h.clean, ← h.found]
    refine ⟨Iff.rfl, Iff.rfl, ?_, fun s' columns' rows' rest' r' hreport' => ?_, fun hnone => ?_⟩
    · have hcases := h.among
      omega
    · obtain ⟨rfl, rfl, rfl, rfl, rfl⟩ := hreport.unique hreport'
      exact hshows
    · exact absurd hreport (hnone _ _ _ _ _)
  · obtain rfl := habort.code code hcode
    have hclean : ¬ EndsClean pages i o w := fun ⟨_, _, _, _, _, h, _⟩ => hnone _ _ _ _ _ h
    have hfound : ¬ EndsFound pages i o w := fun ⟨_, _, _, _, _, h, _⟩ => hnone _ _ _ _ _ h
    exact ⟨iff_of_false nofun hclean, iff_of_false nofun hfound, iff_of_true rfl ⟨hclean, hfound⟩,
      fun _ _ _ _ _ h => absurd h (hnone _ _ _ _ _), fun _ => habort.silent⟩

/-! ### A run in an empty folder -/

theorem walk_nil (place steps : List String) (text : String) :
    Folder.walk [] place steps ≠ .file text := by
  induction steps generalizing place with
  | nil =>
      rw [Folder.walk, Folder.at?, List.lookup_nil]
      dsimp only
      split <;> exact nofun
  | cons step steps ih =>
      rw [Folder.walk]
      split
      · exact nofun
      · split
        · split
          · exact nofun
          · exact ih _
        · exact ih _

/-- An empty folder has no files. -/
theorem text?_nil (path : String) : Folder.text? [] path = none := by
  rw [Folder.text?]
  split
  next text h => exact absurd h (walk_nil _ _ text)
  next => rfl

/-- A run with settings from the environment alone. -/
def lonelyRun : Invocation where
  arguments := ["--json", "--config", "s"]
  environment := [(Settings.accessTokenVariable, "secret"), (Settings.appTokenVariable, "app"),
    (Settings.tableIdVariable, "table")]
  folder := []

/-- Its options. -/
def lonelyOptions : Options :=
  ⟨"s", false, true, false⟩

/-- A page of a list as a reply. -/
def pageReply (items : List Value) : Reply :=
  Remote.written (.object [("code", .int 0), ("data", .object [("items", .list items)])])

/-- A table without rows, with a column whose rule means nothing. -/
def lonelySupply : Supply where
  times _ := .midnight ⟨2026, 1, 1⟩
  replies := [pageReply [.object [("description", .text "\x7b\"validator\": \"?\"\x7d")]],
    pageReply []]

theorem lonelyRun_arguments : readArguments lonelyRun.arguments = .run lonelyOptions := by
  decide +kernel

theorem run_lonelyRun : run 2 lonelyRun =
    begin 2 lonelyOptions (Settings.inEnvironment lonelyRun.environment Settings.usual) := by
  have hsteps : "s".splitOn "/" = ["s"] := by
    rw [String.splitOn, String.splitOnAux, String.splitOnAux]
    rfl
  have hfind : lonelyRun.folder.find lonelyOptions.settingsPath = .missing := by
    rw [Folder.find, Folder.steps, show lonelyOptions.settingsPath = "s" from rfl, hsteps]
    decide +kernel
  have hsettings : settingsOf lonelyOptions none lonelyRun =
      .ok (Settings.inEnvironment lonelyRun.environment Settings.usual) := by
    rw [settingsOf, show lonelyRun.folder = [] from rfl, text?_nil]
    rfl
  rw [run, lonelyRun_arguments]
  change runWith 2 lonelyRun lonelyOptions = _
  rw [runWith, hfind]
  change loadAndRun 2 lonelyRun lonelyOptions none = _
  rw [loadAndRun, hsettings]

theorem lonelyRun_found : EndsFound 2 lonelyRun lonelyOptions lonelySupply := by
  have hcode : ((run 2 lonelyRun).course lonelySupply).result.exitCode? = some 2 := by
    rw [run_lonelyRun]
    decide +kernel
  exact (exit_code_iff lonelyRun_arguments hcode).2.1.mp rfl

end TableAudit.Command
