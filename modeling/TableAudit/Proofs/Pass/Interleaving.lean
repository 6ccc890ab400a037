import Mathlib.Data.List.Induction
import TableAudit.Proofs.Pass.Turns

/-!
# Schedules of turns

A pass whose columns have had all their turns reports what the session made of the columns, in
their order: neither the order of the turns nor where chunks end leaves a trace in it, but for the
counts of chunks. The queue of a pass is one of the ways to give turns. So a pass reports the same
whenever its columns come to their ends, and each row of a column that is validated is put to the
check once, the rows in order.
-/

namespace TableAudit

variable {o : PassOptions} {rows : List Row} {s : Session} {c : Column} {r : ColumnRun}
variable {columns : List Column} {names : String → List String} {ts : String} {i n m : Nat}

/-- The same way to do a pass, with chunks of a size. -/
def PassOptions.inChunks (o : PassOptions) (size : Nat) : PassOptions :=
  { o with chunkSize := some size }

theorem PassOptions.inChunks_ne_zero (h : 0 < n) : (o.inChunks n).chunkSize ≠ some 0 := by
  simp only [inChunks, ne_eq, Option.some.injEq]
  exact Nat.ne_of_gt h

/-- A statistic that does not say how many chunks there were. -/
def ColumnStat.withoutChunks (stat : ColumnStat) : ColumnStat :=
  { stat with totalChunks := 0 }

/-- A report that does not say how many chunks there were. -/
def Report.withoutChunks (r : Report) : Report :=
  { r with stats := r.stats.map ColumnStat.withoutChunks }

/-- An outcome that does not say how many chunks there were. -/
def ColumnOutcome.withoutChunks (out : ColumnOutcome) : ColumnOutcome :=
  { out with stat := out.stat.withoutChunks }

namespace ColumnRun

/-- Nothing breaks a column off: its description leads to something, and if that is a check, it has
an outcome for every row. -/
structure Unbroken (o : PassOptions) (rows : List Row) (s : Session) (c : Column) : Prop where
  configured : ∃ w, configureIn o rows s c = .ok w
  checked : ∀ check, configureIn o rows s c = .ok (.check check) →
    ∀ row ∈ rows, ∃ errors, check.run (.text (row.text c.id)) = .ok errors

/-- The cells of a column can be checked if every row can. -/
theorem checkChunk_entries_ok_iff {check : Check} {id : String} :
    (∃ fs, checkChunk check (entries id rows) = .ok fs) ↔
      ∀ row ∈ rows, ∃ errors, check.run (.text (row.text id)) = .ok errors := by
  have htexts (P : String → Prop) :
      (∀ e ∈ entries id rows, P e.text) ↔ ∀ row ∈ rows, P (row.text id) := by
    rw [← List.forall_mem_map (f := Entry.text), entries_texts, List.forall_mem_map]
  rw [checkChunk_ok_iff]
  exact htexts fun text => ∃ errors, check.run (.text text) = .ok errors

/-- The rows of a column that are all checked make its outcome. -/
theorem finish_first_iff {check : Check} {size : Nat} {out : ColumnOutcome} :
    finish (some size) (firstChecking rows c check) = .ok out ↔
      ∃ fs, checkChunk check (entries c.id rows) = .ok fs ∧
        out = ⟨⟨c.name, .validated, rows.length, fs.length, chunkCount size rows.length⟩,
          some ⟨c.name, .ofTexts (rows.map (·.text c.id)), fs⟩, []⟩ := by
  have hlength : (entries c.id rows).length = rows.length := by simp [entries]
  rw [finish_ok_iff]
  simp only [firstChecking, outcome, List.nil_append, Nat.zero_add, hlength, entries_texts]

theorem comesTo_ok_iff {size : Nat} :
    (∃ out, comesTo (o.inChunks size) rows s c = .ok out) ↔ Unbroken o rows s c := by
  have hconf : configureIn (o.inChunks size) rows s c = configureIn o rows s c := rfl
  simp only [comesTo, hconf]
  constructor
  · intro h
    cases hc : configureIn o rows s c with
    | error f => simp [hc] at h
    | ok made =>
        refine ⟨⟨made, hc⟩, fun check hcheck => ?_⟩
        rw [hcheck] at h
        obtain ⟨out, hout⟩ := h
        obtain ⟨fs, hfs, -⟩ := finish_first_iff.mp hout
        exact checkChunk_entries_ok_iff.mp ⟨fs, hfs⟩
  · rintro ⟨⟨made, hmade⟩, hrun⟩
    cases made with
    | noRule => simp [hmade]
    | issue i => simp [hmade]
    | check check =>
        obtain ⟨fs, hfs⟩ := checkChunk_entries_ok_iff.mpr (hrun check hmade)
        rw [hmade]
        exact ⟨_, finish_first_iff.mpr ⟨fs, hfs, rfl⟩⟩

/-- What a column comes to depends on the size of the chunks in their count only. -/
theorem comesTo_inChunks (n m : Nat) (o : PassOptions) (rows : List Row) (s : Session)
    (c : Column) :
    (comesTo (o.inChunks n) rows s c).map ColumnOutcome.withoutChunks =
      (comesTo (o.inChunks m) rows s c).map ColumnOutcome.withoutChunks := by
  have hconf (size : Nat) : configureIn (o.inChunks size) rows s c = configureIn o rows s c := rfl
  simp only [comesTo, hconf]
  cases configureIn o rows s c with
  | error f => rfl
  | ok made =>
      cases made with
      | noRule => rfl
      | issue i => rfl
      | check check =>
          simp only [PassOptions.inChunks, finish, firstChecking]
          cases checkChunk check (entries c.id rows) <;> rfl

/-- A validated column has had every row checked, in as many chunks as the rows make. -/
theorem stat_of_comesTo {out : ColumnOutcome} (h : comesTo (o.inChunks n) rows s c = .ok out)
    (hv : out.stat.status = .validated) :
    out.stat.checkedRows = rows.length ∧ out.stat.totalChunks = chunkCount n rows.length := by
  simp only [comesTo] at h
  cases hc : configureIn (o.inChunks n) rows s c with
  | error f => simp [hc] at h
  | ok made =>
      rw [hc] at h
      cases made with
      | noRule =>
          cases h
          cases hv
      | issue i =>
          cases h
          cases hv
      | check check =>
          obtain ⟨fs, -, rfl⟩ := finish_first_iff.mp h
          exact ⟨rfl, rfl⟩

/-- A turn is one of those that a column has left. -/
theorem turnsLeft_turn (hz : o.chunkSize ≠ some 0) (rows : List Row) (s : Session)
    (r : ColumnRun) : turnsLeft rows (r.turn o rows s).run ≤ turnsLeft rows r - 1 := by
  cases r with
  | waiting c =>
      rw [turn, begin_run]
      cases configureIn o rows s c with
      | error f => simp [turnsLeft]
      | ok made =>
          cases made with
          | noRule => simp [turnsLeft, unchecked]
          | issue i => simp [turnsLeft, unchecked]
          | check check =>
              have hle := turnsLeft_advance hz rows (firstChecking rows c check)
              simpa [firstChecking, entries, turnsLeft] using hle
  | checking w => exact turnsLeft_advance hz rows w
  | ended out => simp [turn, turnsLeft]
  | failed f => simp [turn, turnsLeft]

theorem turnsLeft_eq_zero_iff : turnsLeft rows r = 0 ↔ r.isOpen = false := by
  cases r <;> simp [turnsLeft, isOpen]

end ColumnRun

namespace Pass

open ColumnRun

variable {p : Pass} {t : Turns}

/-! ### What a settled pass reports -/

/-- What columns come to in a session, if all of them come to an outcome. -/
def outcomesIn (o : PassOptions) (rows : List Row) (s : Session) (columns : List Column) :
    Option (List ColumnOutcome) :=
  columns.mapM fun c => (comesTo o rows s c).toOption

theorem outcomesIn_cons (c : Column) (columns : List Column) :
    outcomesIn o rows s (c :: columns) =
      (comesTo o rows s c).toOption.bind fun out =>
        (outcomesIn o rows s columns).map (out :: ·) := by
  rw [outcomesIn, List.mapM_cons, outcomesIn]
  cases (comesTo o rows s c).toOption with
  | none => rfl
  | some out => cases columns.mapM fun c => (comesTo o rows s c).toOption <;> rfl

theorem outcomesIn_eq_some_iff {outs : List ColumnOutcome} :
    outcomesIn o rows s columns = some outs ↔
      List.Forall₂ (fun c out => comesTo o rows s c = .ok out) columns outs := by
  induction columns generalizing outs with
  | nil => simp [outcomesIn, eq_comm]
  | cons c columns ih =>
      rw [outcomesIn_cons, List.forall₂_cons_left_iff]
      cases comesTo o rows s c with
      | error f => simp [Except.toOption]
      | ok out =>
          simp only [Except.toOption, Option.bind_some, Option.map_eq_some_iff, ih,
            Except.ok.injEq]
          constructor
          · rintro ⟨outs, houts, rfl⟩
            exact ⟨out, outs, rfl, houts, rfl⟩
          · rintro ⟨_, outs, rfl, houts, rfl⟩
            exact ⟨outs, houts, rfl⟩

theorem isSome_outcomesIn_iff : (outcomesIn o rows s columns).isSome = true ↔
    ∀ c ∈ columns, ∃ out, comesTo o rows s c = .ok out := by
  induction columns with
  | nil => simp [outcomesIn]
  | cons c columns ih =>
      rw [outcomesIn_cons, List.forall_mem_cons, ← ih]
      cases comesTo o rows s c <;> simp [Except.toOption]

/-- Columns that have come to their ends have ended as the session has it. -/
theorem outcomes?_of_onWay {runs : List ColumnRun}
    (h : List.Forall₂ (fun c r => ∃ seen, OnWay o rows s c seen r) columns runs)
    (hclosed : ∀ r ∈ runs, r.isOpen = false) :
    outcomes? runs = outcomesIn o rows s columns := by
  induction h with
  | nil => rfl
  | @cons c r columns runs hr _ ih =>
      rw [List.forall_mem_cons] at hclosed
      obtain ⟨seen, hr⟩ := hr
      rw [outcomesIn_cons, ← ih hclosed.2]
      cases r with
      | waiting d => cases hclosed.1
      | checking w => cases hclosed.1
      | ended out =>
          rw [hr.1]
          rfl
      | failed f =>
          rw [show comesTo o rows s c = .error f from hr]
          rfl

theorem OnTrack.forall₂ (h : OnTrack o rows columns s t) :
    List.Forall₂ (fun c r => ∃ seen, OnWay o rows s c seen r) columns t.pass.runs :=
  List.forall₂_iff_get.mpr ⟨h.length.symm, fun i hi hi' =>
    ⟨_, h.leads i _ _ (List.getElem?_eq_getElem hi) (List.getElem?_eq_getElem hi')⟩⟩

/-- A pass without turns left reports what the session made of the columns. -/
theorem OnTrack.report (h : OnTrack o rows columns s t) (hsettled : t.Settled) (ts : String) :
    t.pass.report? ts = (outcomesIn o rows s columns).map (reportOf rows.length ts) := by
  rw [report?, outcomes?_of_onWay h.forall₂ hsettled, h.sameRows]

theorem onTrack_turns (hz : o.chunkSize ≠ some 0) (hids : (columns.map (·.id)).Nodup)
    (rows : List Row) (s : Session) (is : List Nat) :
    OnTrack o rows columns s ((start o rows columns).turns s is) := by
  induction is using List.reverseRecOn with
  | nil => exact onTrack_start o rows columns s
  | append_singleton is i ih =>
      rw [turns_concat]
      exact ih.next hz hids i

/-! ### The size of chunks -/

theorem reportOf_withoutChunks (k : Nat) (ts : String) (outs : List ColumnOutcome) :
    (reportOf k ts outs).withoutChunks =
      reportOf k ts (outs.map ColumnOutcome.withoutChunks) := by
  have hstatus : (fun stat => decide (stat.status = ColumnStatus.validated)) ∘
      (ColumnOutcome.stat ∘ ColumnOutcome.withoutChunks) =
        (fun stat => decide (stat.status = .validated)) ∘ ColumnOutcome.stat := rfl
  simp only [reportOf, Report.withoutChunks, List.map_map, List.length_map, List.filterMap_map,
    List.flatMap_map, List.filter_map, hstatus]
  rfl

theorem outcomesIn_inChunks (n m : Nat) (o : PassOptions) (rows : List Row) (s : Session)
    (columns : List Column) :
    (outcomesIn (o.inChunks n) rows s columns).map (List.map ColumnOutcome.withoutChunks) =
      (outcomesIn (o.inChunks m) rows s columns).map (List.map ColumnOutcome.withoutChunks) := by
  induction columns with
  | nil => rfl
  | cons c columns ih =>
      have hc := comesTo_inChunks n m o rows s c
      rw [outcomesIn_cons, outcomesIn_cons]
      cases hn : comesTo (o.inChunks n) rows s c with
      | error f =>
          cases hm : comesTo (o.inChunks m) rows s c with
          | error g => rfl
          | ok out => simp [hn, hm, Except.map] at hc
      | ok out =>
          cases hm : comesTo (o.inChunks m) rows s c with
          | error g => simp [hn, hm, Except.map] at hc
          | ok out' =>
              have hout : out.withoutChunks = out'.withoutChunks := by
                simpa [hn, hm, Except.map] using hc
              have hcons (x : ColumnOutcome) (xs : Option (List ColumnOutcome)) :
                  (xs.map (x :: ·)).map (List.map ColumnOutcome.withoutChunks) =
                    (xs.map (List.map ColumnOutcome.withoutChunks)).map
                      (x.withoutChunks :: ·) := by
                cases xs <;> rfl
              simp only [Except.toOption, Option.bind_some, hcons, hout, ih]

/-- The reports on what columns come to differ in the counts of chunks only. -/
theorem reports_inChunks (n m : Nat) (o : PassOptions) (rows : List Row) (s : Session)
    (columns : List Column) (ts : String) :
    ((outcomesIn (o.inChunks n) rows s columns).map (reportOf rows.length ts)).map
        Report.withoutChunks =
      ((outcomesIn (o.inChunks m) rows s columns).map (reportOf rows.length ts)).map
        Report.withoutChunks := by
  have hreport (size : Nat) :
      ((outcomesIn (o.inChunks size) rows s columns).map (reportOf rows.length ts)).map
          Report.withoutChunks =
        ((outcomesIn (o.inChunks size) rows s columns).map
          (List.map ColumnOutcome.withoutChunks)).map (reportOf rows.length ts) := by
    cases outcomesIn (o.inChunks size) rows s columns with
    | none => rfl
    | some outs => exact congrArg some (reportOf_withoutChunks rows.length ts outs)
  rw [hreport n, hreport m, outcomesIn_inChunks n m]

/-! ### Turns enough -/

theorem turnsLeftAt_turn_le (hz : p.options.chunkSize ≠ some 0) (s : Session) (i : Nat) :
    (p.turn s i).pass.turnsLeftAt i ≤ p.turnsLeftAt i - 1 := by
  obtain ⟨hp, -, hclosed⟩ | ⟨r, hr, -, hruns, hrows, -⟩ := turn_cases p s i
  · have hzero : p.turnsLeftAt i = 0 := by
      simp only [PassSchedule.isOpenAt] at hclosed
      rw [turnsLeftAt]
      cases hr : p.runs[i]? with
      | none => rfl
      | some r =>
          rw [hr] at hclosed
          exact turnsLeft_eq_zero_iff.mpr (by simpa using hclosed)
    rw [hp, hzero]
  · have hlt : i < p.runs.length := (List.getElem?_eq_some_iff.mp hr).1
    rw [turnsLeftAt, turnsLeftAt, hruns, List.getElem?_set_self hlt, hr, hrows]
    exact turnsLeft_turn hz p.rows s r

theorem turnsLeftAt_turn_of_ne {j : Nat} (hij : j ≠ i) (p : Pass) (s : Session) :
    (p.turn s i).pass.turnsLeftAt j = p.turnsLeftAt j := by
  obtain ⟨hp, -⟩ | ⟨r, -, -, hruns, hrows, -⟩ := turn_cases p s i
  · rw [hp]
  · rw [turnsLeftAt, turnsLeftAt, hruns, hrows, List.getElem?_set_ne hij.symm]

/-- Every turn of a column is one less to come. -/
theorem turnsLeftAt_turns (hz : o.chunkSize ≠ some 0) (hids : (columns.map (·.id)).Nodup)
    (rows : List Row) (s : Session) (is : List Nat) (i : Nat) :
    ((start o rows columns).turns s is).pass.turnsLeftAt i ≤ rows.length + 1 - is.count i := by
  induction is using List.reverseRecOn with
  | nil =>
      simp only [turns, List.foldl_nil, turnsLeftAt, start, List.getElem?_map]
      cases columns[i]? <;> simp [turnsLeft]
  | append_singleton is j ih =>
      have htrack := onTrack_turns hz hids rows s is
      rw [turns_concat, List.count_append]
      by_cases hij : j = i
      · subst hij
        have hle := turnsLeftAt_turn_le (by rw [htrack.sameOptions]; exact hz)
          ((start o rows columns).turns s is).session j
        simp only [Turns.next, List.count_singleton_self]
        omega
      · have hsame := turnsLeftAt_turn_of_ne (Ne.symm hij) ((start o rows columns).turns s is).pass
          ((start o rows columns).turns s is).session
        simp only [Turns.next, hsame, List.count_singleton]
        simpa [hij] using ih

/-- Columns that have had a turn more than there are rows have no turns left. -/
theorem turns_settled (hz : o.chunkSize ≠ some 0) (hids : (columns.map (·.id)).Nodup)
    {is : List Nat} (hcount : ∀ i < columns.length, rows.length < is.count i) :
    ((start o rows columns).turns s is).Settled := by
  intro r hr
  obtain ⟨i, hi⟩ := List.mem_iff_getElem?.mp hr
  have htrack := onTrack_turns hz hids rows s is
  have hlt : i < columns.length := by
    rw [← htrack.length]
    exact (List.getElem?_eq_some_iff.mp hi).1
  have hle := turnsLeftAt_turns hz hids rows s is i
  have hmany := hcount i hlt
  have hzero : turnsLeft rows r = 0 := by
    rw [turnsLeftAt, hi, htrack.sameRows] at hle
    simp only [Option.elim_some] at hle
    omega
  exact turnsLeft_eq_zero_iff.mp hzero

end Pass

namespace PassSchedule

open ColumnRun Pass

/-! ### The queue gives turns -/

/-- An announcement has no effect on the columns and the session. -/
theorem job_settled (q : PassSchedule) (i : Nat) :
    (q.job (.settled i)).pass = q.pass ∧ (q.job (.settled i)).session = q.session := by
  simp only [job]
  split
  · exact ⟨rfl, rfl⟩
  · split <;> exact ⟨rfl, rfl⟩

/-- What a pass does until it is over is to give turns. -/
theorem runFor_turns (fuel : Nat) {q : PassSchedule} {t : Turns} (hp : q.pass = t.pass)
    (hs : q.session = t.session) : ∃ is : List Nat,
      (runFor fuel q).pass = (is.foldl Turns.next t).pass ∧
        (runFor fuel q).session = (is.foldl Turns.next t).session := by
  induction fuel generalizing q t with
  | zero => exact ⟨[], hp, hs⟩
  | succ fuel ih =>
      simp only [runFor]
      split
      next => exact ⟨[], hp, hs⟩
      next =>
        split
        next => exact ⟨[], hp, hs⟩
        next j rest hq =>
          cases j with
          | turn i =>
              obtain ⟨is, his⟩ := ih (q := { q with queue := rest }.job (.turn i)) (t := t.next i)
                (by simp [job, Turns.next, hp, hs]) (by simp [job, Turns.next, hp, hs])
              exact ⟨i :: is, his⟩
          | settled i =>
              obtain ⟨hpass, hsession⟩ := job_settled { q with queue := rest } i
              exact ih (hpass.trans hp) (hsession.trans hs)
          | «over» => exact ih hp hs

theorem run_turns (p : Pass) (s : Session) : ∃ is : List Nat,
    (run p s).pass = (p.turns s is).pass ∧ (run p s).session = (p.turns s is).session :=
  runFor_turns _ rfl rfl

/-- A pass reports what the session made of the columns, if all of them come to an outcome. -/
theorem run_result (hz : o.chunkSize ≠ some 0) (hids : (columns.map (·.id)).Nodup)
    (hn : ∀ c ∈ columns, c.name ∈ names c.id) (hs : Faithful o names s) (rows : List Row)
    (ts : String) :
    ((run (Pass.start o rows columns) s).result ts).toOption =
      (outcomesIn o rows s columns).map fun outs => some (reportOf rows.length ts outs) := by
  obtain ⟨h, hend⟩ := (Sound.start hs).runFor hz hn _ (effort_start o rows columns s)
  rw [← run] at h hend
  obtain ⟨is, hpass, -⟩ := run_turns (Pass.start o rows columns) s
  have htrack := onTrack_turns hz hids rows s is
  cases hf : (run (Pass.start o rows columns) s).fault with
  | some f =>
      -- the column that failed comes to no outcome
      obtain ⟨i, hi⟩ := h.noted f hf
      rw [faultAt_eq_some, hpass] at hi
      have hlt : i < columns.length := by
        rw [← htrack.length]
        exact (List.getElem?_eq_some_iff.mp hi).1
      have hfailed : comesTo o rows s columns[i] = .error f :=
        htrack.leads i _ _ (List.getElem?_eq_getElem hlt) hi
      have hnone : outcomesIn o rows s columns = none := by
        rw [← Option.not_isSome_iff_eq_none, isSome_outcomesIn_iff]
        intro hall
        obtain ⟨out, hout⟩ := hall columns[i] (List.getElem_mem hlt)
        rw [hfailed] at hout
        cases hout
      rw [hnone]
      simp only [result, hf]
      rfl
  | none =>
      have hsettled : ((Pass.start o rows columns).turns s is).Settled := by
        intro r hr
        rw [← hpass] at hr
        obtain ⟨out, rfl⟩ := h.all_ended hend hf r hr
        rfl
      obtain ⟨outs, houts, -⟩ := outcomes_of_ended (h.all_ended hend hf)
      have hreport := htrack.report hsettled ts
      rw [← hpass, report?, houts, h.course.sameRows] at hreport
      cases hin : outcomesIn o rows s columns with
      | none => simp [hin] at hreport
      | some outs' =>
          rw [hin] at hreport
          simp only [result, hf, report?, houts, h.course.sameRows]
          exact congrArg some hreport

/-- A pass in chunks of a size over columns that had turns at places. -/
def turned (o : PassOptions) (rows : List Row) (columns : List Column) (s : Session) (size : Nat)
    (is : List Nat) : Turns :=
  (Pass.start (o.inChunks size) rows columns).turns s is

/-- Whatever the order of turns and the sizes of chunks, columns that have had all their turns are
reported alike, but for the counts of chunks; there is a report unless a column breaks off; and
there are no turns left when every column has had one more than there are rows. A column that is
validated has put each row to its check once, the rows in order, in as many chunks as they make.
The queue of a pass is one of the orders. -/
theorem schedules_agree (o : PassOptions) (rows : List Row) (columns : List Column)
    (hids : (columns.map (·.id)).Nodup) (s : Session) (hn : 0 < n) (hm : 0 < m) (ts : String) :
    (∀ is js, (turned o rows columns s n is).Settled → (turned o rows columns s m js).Settled →
        ((turned o rows columns s n is).pass.report? ts).map Report.withoutChunks =
          ((turned o rows columns s m js).pass.report? ts).map Report.withoutChunks) ∧
      (∀ is, (turned o rows columns s n is).Settled →
        ((∃ report, (turned o rows columns s n is).pass.report? ts = some report) ↔
          ∀ c ∈ columns, Unbroken o rows s c)) ∧
      (∀ is, (∀ i < columns.length, rows.length < is.count i) →
        (turned o rows columns s n is).Settled) ∧
      (∀ is i c out, columns[i]? = some c →
        (turned o rows columns s n is).pass.runs[i]? = some (.ended out) →
        out.stat.status = .validated →
          (turned o rows columns s n is).cellsOf i = entries c.id rows ∧
            out.stat.checkedRows = rows.length ∧
            out.stat.totalChunks = (rows.length + n - 1) / n) ∧
      ∀ names, Faithful o names s → (∀ c ∈ columns, c.name ∈ names c.id) →
        (∃ is, (run (Pass.start (o.inChunks n) rows columns) s).pass =
            (turned o rows columns s n is).pass) ∧
          ∀ js, (turned o rows columns s m js).Settled →
            (((run (Pass.start (o.inChunks n) rows columns) s).result ts).toOption.bind id).map
                Report.withoutChunks =
              ((turned o rows columns s m js).pass.report? ts).map Report.withoutChunks := by
  have hz {size : Nat} (h : 0 < size) : (o.inChunks size).chunkSize ≠ some 0 :=
    PassOptions.inChunks_ne_zero h
  have hreport {size : Nat} (h : 0 < size) {is : List Nat}
      (hsettled : (turned o rows columns s size is).Settled) :
      (turned o rows columns s size is).pass.report? ts =
        (outcomesIn (o.inChunks size) rows s columns).map (reportOf rows.length ts) :=
    (onTrack_turns (hz h) hids rows s is).report hsettled ts
  refine ⟨?_, ?_, ?_, ?_, ?_⟩
  · intro is js his hjs
    rw [hreport hn his, hreport hm hjs]
    exact reports_inChunks n m o rows s columns ts
  · intro is his
    rw [hreport hn his, ← Option.isSome_iff_exists, Option.isSome_map, isSome_outcomesIn_iff]
    exact forall₂_congr fun c _ => comesTo_ok_iff
  · intro is hcount
    exact turns_settled (hz hn) hids hcount
  · intro is i c out hc hout hv
    obtain ⟨hcomes, hseen⟩ := (onTrack_turns (hz hn) hids rows s is).leads i c _ hc hout
    exact ⟨hseen hv, stat_of_comesTo hcomes hv⟩
  · intro names hs hnames
    constructor
    · obtain ⟨is, hpass, -⟩ := run_turns (Pass.start (o.inChunks n) rows columns) s
      exact ⟨is, hpass⟩
    · intro js hjs
      have hresult := run_result (hz hn) hids hnames
        (show Faithful (o.inChunks n) names s from hs) rows ts
      have hflat : ((outcomesIn (o.inChunks n) rows s columns).map fun outs =>
            some (reportOf rows.length ts outs)).bind id =
          (outcomesIn (o.inChunks n) rows s columns).map (reportOf rows.length ts) := by
        cases outcomesIn (o.inChunks n) rows s columns <;> rfl
      rw [hresult, hflat, hreport hm hjs]
      exact reports_inChunks n m o rows s columns ts

/-- A column of short codes beside one of dates. -/
def mixedColumns : List Column :=
  [ruled "string|min:3", deadlines]

/-- A code that is too short beside a date that has expired, and two rows without fault. -/
def mixedRows : List Row :=
  [⟨1, "r1", [("f", "ab"), ("due", "2025-12-01")], none, none⟩,
    ⟨2, "r2", [("f", "abc"), ("due", "2026-01-01")], none, none⟩,
    ⟨3, "r3", [("f", "abcd")], none, none⟩]

/-- The counts of chunks in the report of a pass. -/
def chunkCounts? (t : Turns) : Option (List Nat) :=
  (t.pass.report? "").map fun report => report.stats.map (·.totalChunks)

theorem mixed_agree : ∃ report report',
    (turned dayOptions mixedRows mixedColumns Session.fresh 1 [0, 0, 0, 0, 1, 1, 1, 1]).pass.report?
        "" = some report ∧
      (turned dayOptions mixedRows mixedColumns Session.fresh 2
        [1, 0, 1, 0, 0, 1, 1, 0]).pass.report? "" = some report' ∧
      report.stats.map (·.totalChunks) = [3, 3] ∧ report'.stats.map (·.totalChunks) = [2, 2] ∧
      report.withoutChunks = report'.withoutChunks := by
  obtain ⟨hagree, -, hsettled, -⟩ := schedules_agree dayOptions mixedRows mixedColumns
    (by decide) Session.fresh Nat.one_pos Nat.two_pos ""
  obtain ⟨-, -, hsettled', -⟩ := schedules_agree dayOptions mixedRows mixedColumns
    (by decide) Session.fresh Nat.two_pos Nat.one_pos ""
  have hcounts : chunkCounts? (turned dayOptions mixedRows mixedColumns Session.fresh 1
      [0, 0, 0, 0, 1, 1, 1, 1]) = some [3, 3] := by decide +kernel
  have hcounts' : chunkCounts? (turned dayOptions mixedRows mixedColumns Session.fresh 2
      [1, 0, 1, 0, 0, 1, 1, 0]) = some [2, 2] := by decide +kernel
  obtain ⟨report, hreport, hchunks⟩ := Option.map_eq_some_iff.mp hcounts
  obtain ⟨report', hreport', hchunks'⟩ := Option.map_eq_some_iff.mp hcounts'
  refine ⟨report, report', hreport, hreport', hchunks, hchunks', ?_⟩
  have hsame := hagree _ _ (hsettled _ (show ∀ i < mixedColumns.length,
    mixedRows.length < [0, 0, 0, 0, 1, 1, 1, 1].count i by decide)) (hsettled' _ (show
      ∀ i < mixedColumns.length, mixedRows.length < [1, 0, 1, 0, 0, 1, 1, 0].count i by decide))
  rw [hreport, hreport'] at hsame
  exact Option.some.inj hsame

end PassSchedule

end TableAudit
