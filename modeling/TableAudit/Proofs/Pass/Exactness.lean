import Mathlib.Data.List.Basic
import TableAudit.Proofs.Check.Codes
import TableAudit.Proofs.Pass.Interleaving
import TableAudit.Proofs.Report.Grouping

/-!
# Exact reports

A pass over columns of different identifiers reports every cell with which its check finds
something wrong and nothing else: the columns in their order, in each the rows in theirs, every
cell with its place, its text and the codes that the check gives. A column that fails has one
issue. So a report is put together from what is reported of each column alone, its counts are
those of its parts, and every column is announced once.
-/

namespace TableAudit

variable {o : PassOptions} {rows : List Row} {c : Column} {columns : List Column}
variable {check : Check} {ts : String} {size : Nat} {outs : List ColumnOutcome}

theorem firstOccurrences_of_nodup {ss : List String} (h : ss.Nodup) : firstOccurrences ss = ss := by
  induction ss with
  | nil => rfl
  | cons s ss ih =>
      rw [List.nodup_cons] at h
      rw [firstOccurrences, ih h.2, List.filter_eq_self.mpr]
      intro t ht
      rw [decide_eq_true_eq]
      rintro rfl
      exact h.1 ht

/-- The violation of a cell that is found to be wrong. -/
def violationOf (ts : String) (rows : List Row) (c : Column) (number : Nat) (row : Row)
    (errors : List CheckError) : Violation :=
  let problem := Text.joinWith ", " (firstOccurrences (errors.map (·.message)))
  let codes := errors.map (·.code)
  ⟨row.recordId, number, c.name, row.text c.id, if problem = "" then "unknown" else problem, codes,
    ts, conflictRows? (.ofTexts (rows.map (·.text c.id))) codes number (row.text c.id)⟩

/-- The cells of a column with which its check finds something wrong: the numbers of the rows, the
rows in their order, and what is wrong. -/
def wrongCells (rows : List Row) (c : Column) (check : Check) :
    List (Nat × Row × List CheckError) :=
  (rows.zipIdx 1).filterMap fun (row, number) =>
    match check.run (.text (row.text c.id)) with
    | .ok (e :: es) => some (number, row, e :: es)
    | _ => none

/-- The violations of the wrong cells of a column. -/
def violationsBy (ts : String) (rows : List Row) (c : Column) (check : Check) : List Violation :=
  (wrongCells rows c check).map fun (number, row, errors) =>
    violationOf ts rows c number row errors

namespace Configured

/-- What is reported of the cells of a column. -/
def records (ts : String) (rows : List Row) (c : Column) : Configured → List Violation
  | .check made => violationsBy ts rows c made
  | _ => []

/-- The statistic of a column that is checked in chunks of a size. -/
def stat (rows : List Row) (size : Nat) (c : Column) : Configured → ColumnStat
  | .noRule => ⟨c.name, .noRule, 0, 0, 0⟩
  | .issue _ => ⟨c.name, .failed, 0, 0, 0⟩
  | .check made =>
    ⟨c.name, .validated, rows.length, (wrongCells rows c made).length,
      (rows.length + size - 1) / size⟩

end Configured

namespace ColumnRun

/-- What is reported of the cells of a column whose check is made under a name. -/
def recordsOf (o : PassOptions) (rows : List Row) (ts field : String) (c : Column) :
    List Violation :=
  (configure o rows field c).toOption.elim [] (Configured.records ts rows c)

/-- The issue that the description of a column leads to. -/
def issueOf? (o : PassOptions) (rows : List Row) (c : Column) : Option Issue :=
  (configure o rows c.name c).toOption.bind Configured.issue?

/-- The statistic of a column. -/
def statOf (o : PassOptions) (rows : List Row) (size : Nat) (c : Column) : ColumnStat :=
  (configure o rows c.name c).toOption.elim ⟨c.name, .noRule, 0, 0, 0⟩ (Configured.stat rows size c)

/-! ### The failures of a column -/

/-- The failure of a cell, if its check finds something wrong with it. -/
def failureOf? (check : Check) (e : Entry) : Option Failure :=
  match check.run (.text e.text) with
  | .ok (x :: xs) => some ⟨e.rowNumber, e.recordId, e.text, x :: xs⟩
  | _ => none

theorem checkChunk_eq {es : List Entry} {fs : List Failure} (h : checkChunk check es = .ok fs) :
    fs = es.filterMap (failureOf? check) := by
  induction es generalizing fs with
  | nil =>
      cases h
      rfl
  | cons e es ih =>
      obtain ⟨errors, hr, rest, hrest, rfl⟩ := checkChunk_cons_iff.mp h
      rw [ih hrest]
      cases errors with
      | nil => simp [failureOf?, hr]
      | cons x xs => simp [failureOf?, hr]

/-- The failures of a column are those of its wrong cells. -/
theorem failures_eq {fs : List Failure} (h : checkChunk check (entries c.id rows) = .ok fs) :
    fs = (wrongCells rows c check).map fun (number, row, errors) =>
      ⟨number, row.recordId, row.text c.id, errors⟩ := by
  rw [checkChunk_eq h, entries, List.filterMap_map, wrongCells, List.map_filterMap]
  apply List.filterMap_congr
  intro cell _
  simp only [Function.comp_apply, failureOf?]
  cases check.run (.text (cell.1.text c.id)) with
  | error f => rfl
  | ok errors => cases errors <;> rfl

theorem codes_of_wrong {cell : Nat × Row × List CheckError} (h : cell ∈ wrongCells rows c check) :
    (cell.2.2.map (·.code)).Nodup := by
  obtain ⟨⟨row, number⟩, -, hcell⟩ := List.mem_filterMap.mp h
  dsimp only at hcell
  split at hcell
  next e es hr =>
    obtain rfl := Option.some.inj hcell
    exact Check.codes_nodup hr
  next => cases hcell

/-- The failures of a column make one violation for each of its wrong cells. -/
theorem violations_of_failures {fs : List Failure}
    (h : checkChunk check (entries c.id rows) = .ok fs) (ts : String) :
    ColumnFailures.violations ts ⟨c.name, .ofTexts (rows.map (·.text c.id)), fs⟩ =
      violationsBy ts rows c check := by
  have hnodup : (fs.map (·.rowNumber)).Nodup := by
    have hsub := (checkChunk_failures h).1
    rw [entries_numbers] at hsub
    exact hsub.nodup List.nodup_range'
  rw [ColumnFailures.violations, groupBy_of_nodup hnodup, List.map_map]
  conv_lhs => arg 2; rw [failures_eq h]
  rw [List.map_map]
  apply List.map_congr_left
  intro cell hcell
  simp [Violation.ofFailures, violationOf, firstOccurrences_of_nodup (codes_of_wrong hcell)]

/-! ### The outcome of a column -/

/-- What a column comes to in a session is what the description makes of it there. -/
theorem outcome_exact {s : Session} {out : ColumnOutcome}
    (h : comesTo (o.inChunks size) rows s c = .ok out) :
    ∃ made, configureIn o rows s c = .ok made ∧ out.stat = made.stat rows size c ∧
      out.issues = made.issues ∧
      ∀ ts, out.failures.elim [] (·.violations ts) = made.records ts rows c := by
  have hconf : configureIn (o.inChunks size) rows s c = configureIn o rows s c := rfl
  rw [comesTo, hconf] at h
  cases hc : configureIn o rows s c with
  | error f =>
      rw [hc] at h
      cases h
  | ok made =>
      refine ⟨made, rfl, ?_⟩
      rw [hc] at h
      cases made with
      | noRule =>
          cases h
          exact ⟨rfl, rfl, fun _ => rfl⟩
      | issue i =>
          cases h
          exact ⟨rfl, rfl, fun _ => rfl⟩
      | check check =>
          obtain ⟨fs, hfs, rfl⟩ := finish_first_iff.mp h
          refine ⟨?_, rfl, violations_of_failures hfs⟩
          have hlength : fs.length = (wrongCells rows c check).length := by
            rw [failures_eq hfs, List.length_map]
          rw [hlength]
          rfl

/-- In a fresh session it is what is said of the column. -/
theorem outcome_fresh {out : ColumnOutcome}
    (h : comesTo (o.inChunks size) rows Session.fresh c = .ok out) (ts : String) :
    out.stat = statOf o rows size c ∧ out.issues = (issueOf? o rows c).toList ∧
      out.failures.elim [] (·.violations ts) = recordsOf o rows ts c.name c := by
  obtain ⟨made, hmade, hstat, hissues, hrecords⟩ := outcome_exact h
  rw [configureIn_fresh] at hmade
  rw [statOf, issueOf?, recordsOf, hmade]
  refine ⟨hstat, ?_, hrecords ts⟩
  rw [hissues]
  cases made <;> rfl

theorem configure_issue_name {i : Issue} {field : String}
    (h : configure o rows field c = .ok (.issue i)) : i.columnName = c.name := by
  simp only [configure] at h
  split at h
  next => cases h
  next => cases h
  next =>
    cases h
    rfl
  next =>
    split at h
    next =>
      cases h
      rfl
    next => cases h
    next => cases h

theorem statOf_violations (ts : String) :
    (statOf o rows size c).violations = (recordsOf o rows ts c.name c).length := by
  rw [statOf, recordsOf]
  cases (configure o rows c.name c).toOption with
  | none => rfl
  | some made => cases made <;> simp [Configured.stat, Configured.records, violationsBy]

/-- A column that fails is one that has an issue, under its name. -/
theorem issueOf?_name : (issueOf? o rows c).map (·.columnName) =
    if (statOf o rows size c).status = .failed then some (statOf o rows size c).columnName
    else none := by
  rw [statOf, issueOf?]
  cases hc : configure o rows c.name c with
  | error f => rfl
  | ok made =>
      cases made with
      | noRule => rfl
      | issue i =>
          exact congrArg some (configure_issue_name hc)
      | check check => rfl

/-- In a fresh session a column is unbroken if its description leads to something, and the check
in that case has an outcome for every row. -/
theorem unbroken_fresh_iff : Unbroken o rows Session.fresh c ↔
    (∃ w, configure o rows c.name c = .ok w) ∧
      ∀ check, configure o rows c.name c = .ok (.check check) →
        ∀ row ∈ rows, ∃ errors, check.run (.text (row.text c.id)) = .ok errors := by
  rw [← configureIn_fresh]
  exact ⟨fun h => ⟨h.configured, h.checked⟩, fun h => ⟨h.1, h.2⟩⟩

end ColumnRun

/-- What a report says is what is said of each of its columns, in their order. -/
structure Report.Exact (o : PassOptions) (rows : List Row) (columns : List Column) (size : Nat)
    (ts : String) (report : Report) : Prop where
  violations : report.violations =
    columns.flatMap fun c => ColumnRun.recordsOf o rows ts c.name c
  issues : report.issues = columns.filterMap (ColumnRun.issueOf? o rows)
  stats : report.stats = columns.map (ColumnRun.statOf o rows size)
  totalRows : report.totalRows = rows.length
  columnsTotal : report.columnsTotal = columns.length
  validated : report.columnsValidated =
    (report.stats.filter (·.status = .validated)).length
  skipped : report.columnsValidated + report.columnsSkipped = columns.length
  failed : report.issues.map (·.columnName) =
    (report.stats.filter (·.status = .failed)).map (·.columnName)
  counted : (report.stats.map (·.violations)).sum = report.violations.length

namespace Pass

open ColumnRun

theorem map_eq_of_forall₂ {α β γ : Type} {f : α → γ} {g : β → γ} {as : List α} {bs : List β}
    (h : List.Forall₂ (fun a b => g b = f a) as bs) : bs.map g = as.map f := by
  induction h with
  | nil => rfl
  | cons hab _ ih => rw [List.map_cons, List.map_cons, hab, ih]

theorem reportOf_violations (k : Nat) (ts : String) (outs : List ColumnOutcome) :
    (reportOf k ts outs).violations =
      outs.flatMap fun out => out.failures.elim [] (·.violations ts) := by
  simp only [reportOf, aggregate]
  induction outs with
  | nil => rfl
  | cons out outs ih =>
      rw [List.flatMap_cons, ← ih]
      cases hf : out.failures with
      | none => simp [hf]
      | some cf => simp [hf]

/-- The report on what columns come to in a fresh session is exact. -/
theorem reportOf_exact (h : List.Forall₂ (fun c out =>
      comesTo (o.inChunks size) rows Session.fresh c = .ok out) columns outs) (ts : String) :
    (reportOf rows.length ts outs).Exact o rows columns size ts := by
  have hviolations := map_eq_of_forall₂ (h.imp fun _ _ hc => (outcome_fresh hc ts).2.2)
  have hissues := map_eq_of_forall₂ (h.imp fun _ _ hc => (outcome_fresh hc ts).2.1)
  have hstats := map_eq_of_forall₂ (h.imp fun _ _ hc => (outcome_fresh hc ts).1)
  have hvalidated : (reportOf rows.length ts outs).columnsValidated ≤ columns.length := by
    rw [h.length_eq, ← List.length_map (f := fun out : ColumnOutcome => out.stat)]
    exact List.length_filter_le _ _
  have hv : (reportOf rows.length ts outs).violations =
      columns.flatMap fun c => recordsOf o rows ts c.name c := by
    rw [reportOf_violations, List.flatMap_def, hviolations, List.flatMap_def]
  have hi : (reportOf rows.length ts outs).issues = columns.filterMap (issueOf? o rows) := by
    rw [List.filterMap_eq_flatMap_toList, List.flatMap_def, ← hissues, ← List.flatMap_def]
    rfl
  have hs : (reportOf rows.length ts outs).stats = columns.map (statOf o rows size) := hstats
  refine ⟨hv, hi, hs, rfl, h.length_eq.symm, rfl, ?_, ?_, ?_⟩
  · have hskipped : (reportOf rows.length ts outs).columnsSkipped =
        columns.length - (reportOf rows.length ts outs).columnsValidated := by
      rw [h.length_eq]
      rfl
    rw [hskipped]
    exact Nat.add_sub_cancel' hvalidated
  · have hfailed : ((columns.map (statOf o rows size)).filter (·.status = .failed)).map
        (·.columnName) = columns.filterMap fun c =>
          if (statOf o rows size c).status = .failed then some (statOf o rows size c).columnName
          else none := by
      rw [← List.filterMap_eq_filter, List.map_filterMap, List.filterMap_map]
      apply List.filterMap_congr
      intro c _
      by_cases hf : (statOf o rows size c).status = .failed <;> simp [hf, Option.guard]
    rw [hi, hs, hfailed, List.map_filterMap]
    exact List.filterMap_congr fun c _ => issueOf?_name
  · rw [hv, hs, List.length_flatMap, List.map_map]
    exact congrArg List.sum (List.map_congr_left fun c _ => statOf_violations ts)

/-- The report on columns is put together from the reports on each of them. -/
theorem reportOf_eq_flatMap (k : Nat) (ts : String) (outs : List ColumnOutcome) :
    let reports := outs.map fun out => reportOf k ts [out]
    (reportOf k ts outs).violations = reports.flatMap (·.violations) ∧
      (reportOf k ts outs).issues = reports.flatMap (·.issues) ∧
      (reportOf k ts outs).stats = reports.flatMap (·.stats) := by
  intro reports
  refine ⟨?_, ?_, ?_⟩
  · simp only [reports, List.flatMap_map, reportOf_violations, List.flatMap_singleton]
  · simp only [reports, List.flatMap_map, reportOf, List.flatMap_singleton]
  · simp only [reports, List.flatMap_map, reportOf, List.map_singleton]
    exact List.map_eq_flatMap

/-! ### Announcements -/

theorem outcomes?_eq_some {runs : List ColumnRun} (h : outcomes? runs = some outs) :
    runs = outs.map .ended := by
  induction runs generalizing outs with
  | nil =>
      cases h
      rfl
  | cons r runs ih =>
      cases r with
      | ended out =>
          simp only [outcomes?, Option.map_eq_some_iff] at h
          obtain ⟨outs', houts, rfl⟩ := h
          rw [ih houts, List.map_cons]
      | _ => cases h

/-- The columns of a pass with a report are announced once each. -/
theorem Announced.perm {p : Pass} (h : Announced p) (hruns : p.runs = outs.map .ended) :
    p.order.Perm (List.range outs.length) := by
  rw [List.perm_ext_iff_of_nodup h.once List.nodup_range]
  intro i
  rw [h.ended_iff, hruns, List.getElem?_map, List.mem_range]
  by_cases hi : i < outs.length
  · simp [hi, hasEnded]
  · simp [hi]

theorem filterMap_getElem?_range {α : Type} (as : List α) :
    (List.range as.length).filterMap (fun i => as[i]?) = as := by
  induction as using List.reverseRecOn with
  | nil => rfl
  | append_singleton as a ih =>
      have hinit : (List.range as.length).filterMap (fun i => (as ++ [a])[i]?) = as := by
        conv_rhs => rw [← ih]
        apply List.filterMap_congr
        intro i hi
        rw [List.getElem?_append_left (List.mem_range.mp hi)]
      rw [List.length_append, List.length_singleton, List.range_succ, List.filterMap_append, hinit]
      simp

/-- So their statistics are given out once each. -/
theorem Announced.stats_perm {p : Pass} (h : Announced p) (hruns : p.runs = outs.map .ended) :
    p.endedStats.Perm (outs.map (·.stat)) := by
  have hended : p.endedStats = p.order.filterMap fun i => (outs.map (·.stat))[i]? := by
    apply List.filterMap_congr
    intro i _
    rw [hruns, List.getElem?_map, List.getElem?_map]
    cases outs[i]? <;> rfl
  have hall := filterMap_getElem?_range (outs.map (·.stat))
  rw [List.length_map] at hall
  rw [hended]
  conv_rhs => rw [← hall]
  exact (h.perm hruns).filterMap _

end Pass

namespace PassSchedule

open ColumnRun Pass

variable {s : Session} {report : Report}

/-- A pass that ends with a report has announced every column once. -/
theorem announced_of_report (hz : o.chunkSize ≠ some 0) (hids : (columns.map (·.id)).Nodup)
    (h : (run (Pass.start o rows columns) s).result ts = .ok (some report)) :
    (run (Pass.start o rows columns) s).pass.order.Perm (List.range columns.length) ∧
      (run (Pass.start o rows columns) s).pass.endedStats.Perm report.stats := by
  obtain ⟨is, hpass, -⟩ := run_turns (Pass.start o rows columns) s
  have htrack := onTrack_turns hz hids rows s is
  have hannounced : (run (Pass.start o rows columns) s).pass.Announced := by
    rw [hpass]
    exact htrack.announced
  have hreport : (run (Pass.start o rows columns) s).pass.report? ts = some report := by
    simp only [result] at h
    split at h
    next => cases h
    next => exact Except.ok.inj h
  obtain ⟨outs, houts, rfl⟩ := Option.map_eq_some_iff.mp hreport
  have hruns := outcomes?_eq_some houts
  have hlength : outs.length = columns.length := by
    rw [← htrack.length, ← hpass, hruns, List.length_map]
  exact ⟨hlength ▸ hannounced.perm hruns, hannounced.stats_perm hruns⟩

/-- What a pass over columns of different identifiers reports in a fresh session. -/
theorem fresh_result (hpos : 0 < size) (hids : (columns.map (·.id)).Nodup) (o : PassOptions)
    (rows : List Row) (ts : String) :
    (run (Pass.start (o.inChunks size) rows columns) Session.fresh).result ts =
        .ok (some report) ↔
      ∃ outs, List.Forall₂ (fun c out =>
          comesTo (o.inChunks size) rows Session.fresh c = .ok out) columns outs ∧
        report = reportOf rows.length ts outs := by
  have hresult := run_result (PassOptions.inChunks_ne_zero hpos) hids
    (fun c hc => List.mem_map_of_mem hc)
    (faithful_fresh (o.inChunks size) fun _ => columns.map (·.name)) rows ts
  calc
    _ ↔ ((run (Pass.start (o.inChunks size) rows columns) Session.fresh).result ts).toOption =
        some (some report) := by
      cases (run (Pass.start (o.inChunks size) rows columns) Session.fresh).result ts <;>
        simp [Except.toOption]
    _ ↔ ∃ outs, outcomesIn (o.inChunks size) rows Session.fresh columns = some outs ∧
        report = reportOf rows.length ts outs := by
      rw [hresult, Option.map_eq_some_iff]
      simp only [Option.some.injEq, eq_comm]
    _ ↔ _ := by simp only [outcomesIn_eq_some_iff]

/-- A pass in a fresh session over columns of different identifiers has a report if every
description leads to something and no check breaks off at a row. The report is exact; it is put
together from the reports on each column alone; and every column is announced once, with its
statistic. -/
theorem report_exact (o : PassOptions) (rows : List Row) (columns : List Column)
    (hids : (columns.map (·.id)).Nodup) (hpos : 0 < size) (ts : String) :
    ((∃ report, (run (Pass.start (o.inChunks size) rows columns) Session.fresh).result ts =
        .ok (some report)) ↔
      ∀ c ∈ columns, (∃ w, configure o rows c.name c = .ok w) ∧
        ∀ check, configure o rows c.name c = .ok (.check check) →
          ∀ row ∈ rows, ∃ errors, check.run (.text (row.text c.id)) = .ok errors) ∧
    ∀ report, (run (Pass.start (o.inChunks size) rows columns) Session.fresh).result ts =
        .ok (some report) →
      report.Exact o rows columns size ts ∧
      (∃ reports, List.Forall₂ (fun c single =>
          (run (Pass.start (o.inChunks size) rows [c]) Session.fresh).result ts =
            .ok (some single)) columns reports ∧
        report.violations = reports.flatMap (·.violations) ∧
        report.issues = reports.flatMap (·.issues) ∧
        report.stats = reports.flatMap (·.stats)) ∧
      (run (Pass.start (o.inChunks size) rows columns) Session.fresh).pass.order.Perm
        (List.range columns.length) ∧
      (run (Pass.start (o.inChunks size) rows columns) Session.fresh).pass.endedStats.Perm
        report.stats := by
  constructor
  · calc
      _ ↔ (outcomesIn (o.inChunks size) rows Session.fresh columns).isSome = true := by
        simp only [fresh_result hpos hids, Option.isSome_iff_exists, outcomesIn_eq_some_iff]
        constructor
        · rintro ⟨_, outs, houts, -⟩
          exact ⟨outs, houts⟩
        · rintro ⟨outs, houts⟩
          exact ⟨_, outs, houts, rfl⟩
      _ ↔ _ := by
        rw [isSome_outcomesIn_iff]
        exact forall₂_congr fun c _ => comesTo_ok_iff.trans unbroken_fresh_iff
  · intro report h
    obtain ⟨outs, houts, rfl⟩ := (fresh_result hpos hids o rows ts).mp h
    obtain ⟨hviolations, hissues, hstats⟩ := reportOf_eq_flatMap rows.length ts outs
    refine ⟨reportOf_exact houts ts, ⟨_, ?_, hviolations, hissues, hstats⟩,
      announced_of_report (PassOptions.inChunks_ne_zero hpos) hids h⟩
    rw [List.forall₂_map_right_iff]
    apply houts.imp
    intro c out hout
    have hid : ([c].map (·.id)).Nodup := List.nodup_singleton c.id
    exact (fresh_result hpos hid o rows ts).mpr ⟨[out], .cons hout .nil, rfl⟩

/-- A pass ends with a report if one can be taken out of its result. -/
theorem ok_some_of_isSome {α : Type} {e : Except Fault (Option α)}
    (h : (e.toOption.bind id).isSome = true) : ∃ a, e = .ok (some a) := by
  cases e with
  | error f => simp [Except.toOption] at h
  | ok answer =>
      obtain ⟨a, ha⟩ := Option.isSome_iff_exists.mp h
      exact ⟨a, congrArg Except.ok ha⟩

/-- A column with a rule, one without, and one with a rule that cannot be used. -/
def assortedColumns : List Column :=
  [ruled "string|min:3", ⟨"g", "Remark", .text, .null, .null⟩,
    { ruled "string|min:-1" with id := "h" }]

theorem assorted_exact : ∃ report,
    (run (Pass.start (dayOptions.inChunks 2) mixedRows assortedColumns) Session.fresh).result "" =
        .ok (some report) ∧
      (report.violations.map fun v => (v.rowNumber, v.recordId, v.cellValue, v.errorTypes)) =
        [(1, "r1", "ab", ["stringMin"])] ∧
      report.issues = [negativeIssue] ∧
      report.stats.map (·.status) = [.validated, .noRule, .failed] ∧
      (run (Pass.start (dayOptions.inChunks 2) mixedRows assortedColumns)
        Session.fresh).pass.order.Perm [0, 1, 2] := by
  obtain ⟨-, hreport⟩ := report_exact dayOptions mixedRows assortedColumns (by decide)
    Nat.two_pos ""
  obtain ⟨report, hres⟩ := ok_some_of_isSome (show (((run (Pass.start (dayOptions.inChunks 2)
    mixedRows assortedColumns) Session.fresh).result "").toOption.bind id).isSome by
      decide +kernel)
  obtain ⟨hexact, -, horder, -⟩ := hreport report hres
  refine ⟨report, hres, ?_, ?_, ?_, horder⟩
  · rw [hexact.violations]
    decide +kernel
  · rw [hexact.issues]
    decide +kernel
  · rw [hexact.stats]
    decide +kernel

end PassSchedule

end TableAudit

/-!
## The wording of problems

The name under which a check was made is mentioned in the wording of problems and nowhere else. So
columns whose checks were made under different names come to the same, but for that wording.
-/

namespace TableAudit

variable {o : PassOptions} {rows : List Row} {c : Column}
variable {check : Check} {ts field field' : String} {size : Nat}

/-- A violation that does not say what the problem is. -/
def Violation.withoutWording (v : Violation) : Violation :=
  { v with problem := "" }

/-- A report that does not say what the problems are. -/
def Report.withoutWording (r : Report) : Report :=
  { r with violations := r.violations.map Violation.withoutWording }

/-- A violation with codes, and without wording. -/
def wordless (ts : String) (rows : List Row) (c : Column) (number : Nat) (row : Row)
    (codes : List String) : Violation :=
  ⟨row.recordId, number, c.name, row.text c.id, "", codes, ts,
    conflictRows? (.ofTexts (rows.map (·.text c.id))) codes number (row.text c.id)⟩

/-- The wrong cells of a column, with the codes of what is wrong. -/
def wrongCodes (rows : List Row) (c : Column) (check : Check) : List (Nat × Row × List String) :=
  (wrongCells rows c check).map fun cell => (cell.1, cell.2.1, cell.2.2.map (·.code))

/-- They do not depend on the name of the check. -/
theorem wrongCodes_named {fs fs' : List Failure}
    (h : ColumnRun.checkChunk check (ColumnRun.entries c.id rows) = .ok fs)
    (h' : ColumnRun.checkChunk (check.named field) (ColumnRun.entries c.id rows) = .ok fs') :
    wrongCodes rows c (check.named field) = wrongCodes rows c check := by
  have hrun := ColumnRun.checkChunk_entries_ok_iff.mp ⟨fs, h⟩
  have hrun' := ColumnRun.checkChunk_entries_ok_iff.mp ⟨fs', h'⟩
  simp only [wrongCodes, wrongCells, List.map_filterMap]
  apply List.filterMap_congr
  intro cell hcell
  have hrow : cell.1 ∈ rows := (List.mem_zipIdx hcell).2.2 ▸ List.getElem_mem _
  obtain ⟨errors, he⟩ := hrun cell.1 hrow
  obtain ⟨errors', he'⟩ := hrun' cell.1 hrow
  have hcodes := Check.run_codes_named he he'
  rw [he, he']
  cases errors with
  | nil =>
      obtain rfl : errors' = [] := List.map_eq_nil_iff.mp hcodes
      rfl
  | cons e es =>
      cases errors' with
      | nil => cases hcodes
      | cons e' es' => exact congrArg (fun codes => some (cell.2, cell.1, codes)) hcodes

theorem violationsBy_wordless (ts : String) (rows : List Row) (c : Column) (check : Check) :
    (violationsBy ts rows c check).map Violation.withoutWording =
      (wrongCodes rows c check).map fun (number, row, codes) =>
        wordless ts rows c number row codes := by
  rw [violationsBy, wrongCodes, List.map_map, List.map_map]
  rfl

/-- Two outcomes are the same but for the wording of problems. -/
structure ColumnOutcome.SameButWording (out out' : ColumnOutcome) : Prop where
  stat : out'.stat = out.stat
  issues : out'.issues = out.issues
  violations : ∀ ts,
    (out'.failures.elim [] (·.violations ts)).map Violation.withoutWording =
      (out.failures.elim [] (·.violations ts)).map Violation.withoutWording

theorem ColumnOutcome.SameButWording.refl (out : ColumnOutcome) : out.SameButWording out :=
  ⟨rfl, rfl, fun _ => rfl⟩

namespace ColumnRun

theorem finish_named {out out' : ColumnOutcome}
    (h : finish (some size) (firstChecking rows c check) = .ok out)
    (h' : finish (some size) (firstChecking rows c (check.named field)) = .ok out') :
    out.SameButWording out' := by
  obtain ⟨fs, hfs, rfl⟩ := finish_first_iff.mp h
  obtain ⟨fs', hfs', rfl⟩ := finish_first_iff.mp h'
  have hcodes := wrongCodes_named hfs hfs'
  have hlength : fs'.length = fs.length := by
    rw [failures_eq hfs, failures_eq hfs', List.length_map, List.length_map]
    simpa [wrongCodes] using congrArg List.length hcodes
  refine ⟨?_, rfl, fun ts => ?_⟩
  · rw [hlength]
  · simp only [Option.elim_some, violations_of_failures hfs, violations_of_failures hfs',
      violationsBy_wordless, hcodes]

/-- The name makes no difference to a column, or its check is made, and only named differently. -/
theorem alone_under (o : PassOptions) (rows : List Row) (field field' : String) (c : Column) :
    alone (o.inChunks size) rows field' c = alone (o.inChunks size) rows field c ∨
      ∃ check : Check, check.messages = o.messages ∧
        alone (o.inChunks size) rows field c =
          finish (some size) (firstChecking rows c check) ∧
        alone (o.inChunks size) rows field' c =
          finish (some size) (firstChecking rows c (check.named field')) := by
  simp only [alone]
  cases RuleConfig.ofDescription c.description with
  | error f => exact Or.inl rfl
  | ok config =>
      cases config with
      | absent => exact Or.inl rfl
      | broken text m => exact Or.inl rfl
      | found source extra =>
          simp only [Check.compile]
          cases Rule.ofText source with
          | error e => exact Or.inl (by cases e <;> rfl)
          | ok rule => exact Or.inr ⟨_, rfl, rfl, rfl⟩

/-- Under different names a column comes to the same, but for the wording. -/
theorem alone_named {out out' : ColumnOutcome}
    (h : alone (o.inChunks size) rows field c = .ok out)
    (h' : alone (o.inChunks size) rows field' c = .ok out') : out.SameButWording out' := by
  obtain hsame | ⟨check, -, hcheck, hcheck'⟩ := alone_under o rows field field' c
  · rw [hsame, h] at h'
    cases h'
    exact .refl _
  · rw [hcheck] at h
    rw [hcheck'] at h'
    exact finish_named h h'

/-- If messages can always be written, a column that comes to an outcome comes to one under any
name. -/
theorem alone_ok_named (hw : o.messages.Writable)
    (h : ∃ out, alone (o.inChunks size) rows field c = .ok out) (field' : String) :
    ∃ out, alone (o.inChunks size) rows field' c = .ok out := by
  obtain hsame | ⟨check, hmessages, hcheck, hcheck'⟩ := alone_under o rows field field' c
  · rwa [hsame]
  · obtain ⟨out, hout⟩ := h
    rw [hcheck] at hout
    obtain ⟨fs, hfs, -⟩ := finish_first_iff.mp hout
    have hrun := checkChunk_entries_ok_iff.mp ⟨fs, hfs⟩
    have hrun' : ∀ row ∈ rows, ∃ es, (check.named field').run (.text (row.text c.id)) = .ok es :=
      fun row hrow => Check.run_ok_named (hmessages ▸ hw) (hrun row hrow) field'
    obtain ⟨fs', hfs'⟩ := checkChunk_entries_ok_iff.mpr hrun'
    exact ⟨_, hcheck'.trans (finish_first_iff.mpr ⟨fs', hfs', rfl⟩)⟩

end ColumnRun

namespace Pass

theorem reportOf_withoutWording {outs outs' : List ColumnOutcome}
    (h : List.Forall₂ ColumnOutcome.SameButWording outs outs') (k : Nat) (ts : String) :
    (reportOf k ts outs').withoutWording = (reportOf k ts outs).withoutWording := by
  have hstats := map_eq_of_forall₂ (h.imp fun _ _ hout => hout.stat)
  have hissues := map_eq_of_forall₂ (h.imp fun _ _ hout => hout.issues)
  have hviolations := map_eq_of_forall₂ (h.imp fun _ _ hout => hout.violations ts)
  have hv : (reportOf k ts outs').violations.map Violation.withoutWording =
      (reportOf k ts outs).violations.map Violation.withoutWording := by
    rw [reportOf_violations, reportOf_violations, List.map_flatMap, List.map_flatMap,
      List.flatMap_def, hviolations, List.flatMap_def]
  have hi : (reportOf k ts outs').issues = (reportOf k ts outs).issues := by
    simp only [reportOf, List.flatMap_def, hissues]
  simp only [Report.withoutWording, hv, hi]
  simp only [reportOf, hstats, h.length_eq]

end Pass

end TableAudit
