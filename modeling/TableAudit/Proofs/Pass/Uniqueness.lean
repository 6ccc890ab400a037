import TableAudit.Proofs.Check.Problems
import TableAudit.Proofs.Pass.Schedule
import TableAudit.Proofs.Report.Grouping

/-!
# Texts that are not unique

A rule that demands unique texts is checked by counting: the check counts the texts of the column,
and the report looks the rows of a text up in an index of it. Both are made from the same cells, so
they agree: the count of a text is the number of rows in the index. Hence a row is reported exactly
if another one holds its text, and with it exactly the others that do.
-/

namespace TableAudit

variable {o : PassOptions} {rows : List Row} {s : Session} {c : Column}
variable {names : String → List String} {id key : String} {i j n : Nat}

/-- The trimmed text of the row with a number, rows being counted from 1. -/
def rowKey? (id : String) (rows : List Row) : Nat → Option String
  | 0 => none
  | n + 1 => (rows[n]?).map fun r => Text.trim (r.text id)

/-- Two different rows hold the same text, which is not blank. -/
def SameText (id : String) (rows : List Row) (i j : Nat) : Prop :=
  i ≠ j ∧ ∃ key, key ≠ "" ∧ rowKey? id rows i = some key ∧ rowKey? id rows j = some key

theorem SameText.symm (h : SameText id rows i j) : SameText id rows j i := by
  obtain ⟨hne, key, hk, hi, hj⟩ := h
  exact ⟨hne.symm, key, hk, hj, hi⟩

theorem exists_ne_iff {l : List Nat} (hl : l.Nodup) (hn : n ∈ l) :
    (∃ j ∈ l, j ≠ n) ↔ 1 < l.length := by
  match l with
  | [] => cases hn
  | [a] => simp_all
  | a :: b :: l =>
      simp only [List.length_cons, Nat.lt_add_left_iff_pos, Nat.zero_lt_succ, iff_true]
      have hab : a ≠ b := by
        rintro rfl
        simp at hl
      by_cases ha : a = n
      · exact ⟨b, by simp, by rwa [← ha, ne_comm]⟩
      · exact ⟨a, by simp, ha⟩

/-! ### The count and the index -/

theorem keysOf_texts (values : List String) :
    Check.keysOf (values.map .text) = (values.map Text.trim).filter (· ≠ "") := by
  simp [Check.keysOf, Value.plain, List.filterMap_map]

theorem empty_count_keysOf (column : List Value) : (Check.keysOf column).count "" = 0 := by
  rw [List.count_eq_zero, Check.keysOf]
  simp

/-- What the check counts is what the index finds. -/
theorem count_keysOf (values : List String) (h : key ≠ "") :
    (Check.keysOf (values.map .text)).count key =
      ((ValueIndex.ofTexts values).rows key).length := by
  calc
    (Check.keysOf (values.map .text)).count key = (values.map Text.trim).count key := by
      rw [keysOf_texts, List.count_filter (by simpa using h)]
    _ = (((values.zipIdx 1).map (·.1)).map Text.trim).count key := by
      rw [List.zipIdx_map_fst]
    _ = ((ValueIndex.ofTexts values).rows key).length := by
      rw [ValueIndex.rows_ofTexts h, List.length_map, ← List.countP_eq_length_filter, List.count,
        List.countP_map, List.countP_map]
      rfl

namespace ColumnRun

theorem mem_entries {e : Entry} (he : e ∈ entries id rows) :
    rowKey? id rows e.rowNumber = some (Text.trim e.text) := by
  simp only [entries, List.mem_map, List.mem_zipIdx_iff_le_and_getElem?_sub] at he
  obtain ⟨⟨r, n⟩, ⟨hn, hr⟩, rfl⟩ := he
  obtain ⟨m, rfl⟩ : ∃ m, n = m + 1 := ⟨n - 1, by simp only at hn; omega⟩
  simp only [Nat.add_sub_cancel] at hr
  simp [rowKey?, hr]

theorem exists_entry (h : SameText id rows i j) : ∃ e ∈ entries id rows, e.rowNumber = i := by
  obtain ⟨-, key, -, hi, -⟩ := h
  cases i with
  | zero => cases hi
  | succ n =>
      have hmem : n + 1 ∈ (entries id rows).map (·.rowNumber) := by
        rw [entries_numbers, List.mem_range'_1]
        simp only [rowKey?, Option.map_eq_some_iff] at hi
        obtain ⟨row, hrow, -⟩ := hi
        have hlt := (List.getElem?_eq_some_iff.mp hrow).1
        omega
      exact List.mem_map.mp hmem

end ColumnRun

theorem mem_rows_iff (h : key ≠ "") :
    n ∈ (ValueIndex.ofTexts (rows.map (·.text id))).rows key ↔ rowKey? id rows n = some key := by
  rw [ValueIndex.mem_rows h]
  cases n with
  | zero => simp [rowKey?]
  | succ n => simp [rowKey?, Function.comp_def]

/-! ### The check of a row -/

theorem code_eq_uniqueness {p : Problem} : p.code = uniquenessCode ↔ p = .repeated := by
  cases p <;> simp [Problem.code, uniquenessCode]

theorem ofKeyword_eq_repeated {r : Rule} {k : Rule.Keyword} :
    Problem.ofKeyword r k = .repeated ↔ k = .unique := by
  cases k <;> cases r <;> simp [Problem.ofKeyword, Problem.ofKind]

theorem blankProblem_ne_repeated {r : Rule} : Check.blankProblem? r ≠ some (some .repeated) := by
  simp only [Check.blankProblem?]
  split
  · simp
  · split
    · simp
    · split <;> simp

/-- A cell is found to be repeated if its text is counted more than once. -/
theorem uniqueness_found_iff {check : Check} {r : Rule.Text} {text : String}
    {errors : List CheckError} (hr : check.rule = .text r) (hu : r.unique = true)
    (hk : check.keys.count "" = 0) (h : check.run (.text text) = .ok errors) :
    uniquenessCode ∈ errors.map (·.code) ↔ 1 < check.keys.count (Text.trim text) := by
  have hfull (hf : check.runFull (.text text) = .ok errors) :
      uniquenessCode ∈ errors.map (·.code) ↔ 1 < check.keys.count (Text.trim text) := by
    have hp : check.problems (.text text) (.text text) check.rule.keywords = .ok errors := by
      rw [← hf, Check.runFull, hr]
      rfl
    rw [Check.mem_codes_iff hp]
    constructor
    · rintro ⟨k, -, hm, hc⟩
      obtain rfl := ofKeyword_eq_repeated.mp (code_eq_uniqueness.mp hc.symm)
      simpa [Check.meets, Check.meetsText] using hm
    · intro hcount
      refine ⟨.unique, Rule.unique_mem_keywords.mpr ⟨r, hr, hu⟩, ?_, ?_⟩
      · simpa [Check.meets, Check.meetsText] using hcount
      · exact (code_eq_uniqueness.mpr (ofKeyword_eq_repeated.mpr rfl)).symm
  simp only [Check.run] at h
  split at h
  next hb =>
    rw [Text.isBlankText_iff.mp hb, hk]
    rw [Text.isBlankText_iff.mp hb, hk] at hfull
    split at h
    next =>
      cases h
      simp
    next p hp =>
      cases hr' : check.report p .null (.text text) with
      | error f =>
          rw [hr'] at h
          cases h
      | ok e =>
          rw [hr'] at h
          cases h
          simp only [List.map_cons, List.map_nil, List.mem_singleton, Check.report_code hr',
            Nat.not_lt_zero, iff_false]
          intro hc
          obtain rfl := code_eq_uniqueness.mp hc.symm
          exact blankProblem_ne_repeated hp
    next => exact hfull h
  next => exact hfull h

/-- Every text can be put to the check of a rule for texts, if messages can be written. -/
theorem run_ok_of_text {check : Check} {r : Rule.Text} (hr : check.rule = .text r)
    (hm : check.messages.Writable) (text : String) :
    ∃ errors, check.run (.text text) = .ok errors := by
  apply Check.run_ok_of_writable hm
  rw [Check.runFull, hr]
  exact Check.problems_ok_iff.mpr fun k _ => by
    obtain ⟨b, hb⟩ := Check.meets_text check text k
    exact ⟨b, hb, fun _ => Check.report_of_writable hm _ _ _⟩

/-! ### The report on a column -/

/-- What violations say of the rows that hold the same texts: a row is among them as repeated
exactly if another one holds its text, and with it exactly the others that do, in ascending
order. -/
structure RepeatsReported (id : String) (rows : List Row) (vs : List Violation) : Prop where
  row_iff : ∀ i, (∃ v ∈ vs, v.rowNumber = i ∧ v.isUniqueness = true) ↔ ∃ j, SameText id rows i j
  conflicts : ∀ v ∈ vs, v.isUniqueness = true → ∃ ns, v.conflictRows = some ns ∧ ns ≠ [] ∧
    ns.Pairwise (· < ·) ∧ ∀ j, j ∈ ns ↔ SameText id rows v.rowNumber j
  none_else : ∀ v ∈ vs, v.isUniqueness = false → v.conflictRows = none

/-- A violation of a row names another row as one that holds the same text. -/
def ConflictsWith (vs : List Violation) (i j : Nat) : Prop :=
  ∃ v ∈ vs, v.rowNumber = i ∧ ∃ ns, v.conflictRows = some ns ∧ j ∈ ns

theorem RepeatsReported.conflictsWith_iff {vs : List Violation} (h : RepeatsReported id rows vs) :
    ConflictsWith vs i j ↔ SameText id rows i j := by
  constructor
  · rintro ⟨v, hv, rfl, ns, hns, hj⟩
    cases hu : v.isUniqueness with
    | false =>
        rw [h.none_else v hv hu] at hns
        cases hns
    | true =>
        obtain ⟨ns', hns', -, -, hmem⟩ := h.conflicts v hv hu
        rw [hns] at hns'
        cases hns'
        exact (hmem j).mp hj
  · intro hij
    obtain ⟨v, hv, rfl, hu⟩ := (h.row_iff i).mpr ⟨j, hij⟩
    obtain ⟨ns, hns, -, -, hmem⟩ := h.conflicts v hv hu
    exact ⟨v, hv, rfl, ns, hns, (hmem j).mpr hij⟩

namespace ColumnRun

theorem violations_reportOf (n : Nat) (ts : String) (w : Checking) :
    (Pass.reportOf n ts [outcome w]).violations =
      ColumnFailures.violations ts ⟨w.name, w.index, w.failures⟩ := by
  simp [Pass.reportOf, aggregate, outcome]

/-- A cell is found to be repeated exactly if another row holds its text. -/
theorem repeated_iff {check : Check} {r : Rule.Text} {e : Entry} {errors : List CheckError}
    (hr : check.rule = .text r) (hu : r.unique = true)
    (hk : check.keys = Check.keysOf (cellValues id rows)) (he : e ∈ entries id rows)
    (hrun : check.run (.text e.text) = .ok errors) :
    uniquenessCode ∈ errors.map (·.code) ↔ ∃ j, SameText id rows e.rowNumber j := by
  have hempty : check.keys.count "" = 0 := by
    rw [hk, empty_count_keysOf]
  rw [uniqueness_found_iff hr hu hempty hrun]
  by_cases ht : Text.trim e.text = ""
  · rw [ht, hempty]
    refine iff_of_false (by simp) ?_
    rintro ⟨j, -, key, hkey, hi, -⟩
    rw [mem_entries he, ht, Option.some.injEq] at hi
    exact hkey hi.symm
  · have hcount : check.keys.count (Text.trim e.text) =
        ((ValueIndex.ofTexts (rows.map (·.text id))).rows (Text.trim e.text)).length := by
      rw [hk, cellValues_eq, entries_texts, count_keysOf _ ht]
    rw [hcount, ← exists_ne_iff ((ValueIndex.rows_ascending ht).imp Nat.ne_of_lt)
      (mem_rows_iff ht |>.mpr (mem_entries he))]
    constructor
    · rintro ⟨j, hj, hne⟩
      exact ⟨j, hne.symm, _, ht, mem_entries he, (mem_rows_iff ht).mp hj⟩
    · rintro ⟨j, hne, key, -, hi, hj⟩
      rw [mem_entries he, Option.some.injEq] at hi
      exact ⟨j, (mem_rows_iff ht).mpr (hi ▸ hj), hne.symm⟩

/-- The rows of a cell's text, but for its own, are the others that hold it. -/
theorem mem_others_iff {e : Entry} (he : e ∈ entries id rows) (ht : Text.trim e.text ≠ "") :
    j ∈ ((ValueIndex.ofTexts ((entries id rows).map (·.text))).rows
      (Text.trim e.text)).filter (· ≠ e.rowNumber) ↔ SameText id rows e.rowNumber j := by
  rw [List.mem_filter, entries_texts, mem_rows_iff ht, decide_eq_true_eq]
  constructor
  · rintro ⟨hj, hne⟩
    exact ⟨hne.symm, _, ht, mem_entries he, hj⟩
  · rintro ⟨hne, key, -, hi, hj⟩
    rw [mem_entries he] at hi
    exact ⟨hj.trans hi.symm, hne.symm⟩

/-- The failures of a column whose texts must be unique say which rows hold the same texts. -/
theorem repeats_of_failures {check : Check} {r : Rule.Text} {fs : List Failure}
    (hr : check.rule = .text r) (hu : r.unique = true)
    (hk : check.keys = Check.keysOf (cellValues id rows))
    (h : checkChunk check (entries id rows) = .ok fs) (name ts : String) :
    RepeatsReported id rows (ColumnFailures.violations ts
      ⟨name, ValueIndex.ofTexts ((entries id rows).map (·.text)), fs⟩) := by
  obtain ⟨hsub, hmem⟩ := checkChunk_failures h
  have hnodup : (fs.map (·.rowNumber)).Nodup := by
    rw [entries_numbers] at hsub
    exact hsub.nodup List.nodup_range'
  refine ⟨fun i => ⟨?_, ?_⟩, ?_, ?_⟩
  · rintro ⟨v, hv, rfl, hvu⟩
    obtain ⟨f, hf, rfl⟩ := (mem_violations hnodup).mp hv
    obtain ⟨e, he, errors, hrun, -, rfl⟩ := (hmem f).mp hf
    exact (repeated_iff hr hu hk he hrun).mp (isUniqueness_ofFailures.mp hvu)
  · rintro ⟨j, hij⟩
    obtain ⟨e, he, rfl⟩ := exists_entry hij
    obtain ⟨errors, hrun⟩ := checkChunk_ok_iff.mp ⟨fs, h⟩ e he
    have hcode := (repeated_iff hr hu hk he hrun).mpr ⟨j, hij⟩
    have hne : errors ≠ [] := by
      rintro rfl
      cases hcode
    have hf := (hmem ⟨e.rowNumber, e.recordId, e.text, errors⟩).mpr ⟨e, he, errors, hrun, hne, rfl⟩
    exact ⟨_, (mem_violations hnodup).mpr ⟨_, hf, rfl⟩, rfl, isUniqueness_ofFailures.mpr hcode⟩
  · intro v hv hvu
    obtain ⟨f, hf, rfl⟩ := (mem_violations hnodup).mp hv
    obtain ⟨e, he, errors, hrun, -, rfl⟩ := (hmem f).mp hf
    obtain ⟨j, hsame⟩ := (repeated_iff hr hu hk he hrun).mp (isUniqueness_ofFailures.mp hvu)
    have ht : Text.trim e.text ≠ "" := by
      obtain ⟨-, key, hkey, hi, -⟩ := hsame
      rw [mem_entries he, Option.some.injEq] at hi
      rwa [hi]
    refine ⟨_, by rw [conflictRows_ofFailures, if_pos ⟨hvu, ht⟩], ?_, ?_,
      fun j => mem_others_iff he ht⟩
    · exact List.ne_nil_of_mem ((mem_others_iff he ht).mpr hsame)
    · exact (ValueIndex.rows_ascending ht).filter _
  · intro v hv hvu
    obtain ⟨f, hf, rfl⟩ := (mem_violations hnodup).mp hv
    rw [conflictRows_ofFailures, if_neg]
    simp [hvu]

theorem repeats_of_finish {check : Check} {r : Rule.Text} {size : Nat} {out : ColumnOutcome}
    (hr : check.rule = .text r) (hu : r.unique = true)
    (hk : check.keys = Check.keysOf (cellValues c.id rows))
    (h : finish (some size) (firstChecking rows c check) = .ok out) (n : Nat) (ts : String) :
    RepeatsReported c.id rows (Pass.reportOf n ts [out]).violations := by
  obtain ⟨fs, hfs, rfl⟩ := finish_ok_iff.mp h
  rw [violations_reportOf]
  exact repeats_of_failures hr hu hk hfs c.name ts

/-- The rows of a column of texts can all be checked, if messages can be written. -/
theorem finish_ok_of_text {check : Check} {r : Rule.Text} (hr : check.rule = .text r)
    (hm : check.messages.Writable) (size : Nat) :
    ∃ out, finish (some size) (firstChecking rows c check) = .ok out := by
  obtain ⟨fs, hfs⟩ : ∃ fs, checkChunk check (entries c.id rows) = .ok fs :=
    checkChunk_ok_iff.mpr fun e _ => run_ok_of_text hr hm e.text
  exact ⟨_, finish_ok_iff.mpr ⟨fs, hfs, rfl⟩⟩

end ColumnRun

namespace PassSchedule

open ColumnRun

/-- A pass over a column whose texts must be unique ends with a report, as long as messages can be
written; and a report that it ends with says exactly which rows hold the same texts. -/
theorem repeats_reported (rows : List Row) {source : String} {extra : List (Value × Value)}
    {r : Rule.Text} {size : Nat}
    (hd : RuleConfig.ofDescription c.description = .ok (.found source extra))
    (hr : Rule.ofText source = .ok (.text r)) (hu : r.unique = true)
    (hsize : o.chunkSize = some size) (hpos : 0 < size) (hn : c.name ∈ names c.id)
    (hs : Faithful o names s) (ts : String) :
    (o.messages.Writable →
        ∃ report, (run (Pass.start o rows [c]) s).result ts = .ok (some report)) ∧
      ∀ report, (run (Pass.start o rows [c]) s).result ts = .ok (some report) →
        RepeatsReported c.id rows report.violations ∧
          (∀ i j, ConflictsWith report.violations i j ↔ ConflictsWith report.violations j i) ∧
          (∀ i, ¬ ConflictsWith report.violations i i) ∧
          ∀ i j, ConflictsWith report.violations i j → rowKey? c.id rows j ≠ some "" := by
  have hz : o.chunkSize ≠ some 0 := by
    rw [hsize]
    simp only [ne_eq, Option.some.injEq]
    omega
  have halone (field : String) : alone o rows field c =
      finish o.chunkSize (firstChecking rows c
        ⟨.text r, field, Check.keysOf (cellValues c.id rows), o.messages, o.now⟩) := by
    simp [alone, hd, Check.compile, hr, hu, bind, Except.bind]
  have hcolumns : ∀ d ∈ [c], d.name ∈ names d.id := by
    simpa using hn
  have hcases := result_cases hz hcolumns hs rows ts
  constructor
  · intro hm
    obtain ⟨f, -, d, hd', field, -, hf⟩ | ⟨outs, hres, -⟩ := hcases
    · -- every cell can be checked, so the column does not fail
      obtain rfl := List.mem_singleton.mp hd'
      rw [halone field, hsize] at hf
      exact (exists_error_iff.mp ⟨f, hf⟩ (finish_ok_of_text rfl hm size)).elim
    · exact ⟨_, hres⟩
  · intro report hreport
    obtain ⟨f, hres, -⟩ | ⟨outs, hres, houts⟩ := hcases
    · rw [hres] at hreport
      cases hreport
    · rw [hres] at hreport
      cases hreport
      obtain ⟨out, _, ⟨field, -, hout⟩, hnil, rfl⟩ := List.forall₂_cons_left_iff.mp houts
      obtain rfl := List.forall₂_nil_left_iff.mp hnil
      rw [halone field, hsize] at hout
      have hrep := repeats_of_finish rfl hu rfl hout rows.length ts
      refine ⟨hrep, fun i j => ?_, fun i hi => ?_, fun i j hij hj => ?_⟩
      · rw [hrep.conflictsWith_iff, hrep.conflictsWith_iff]
        exact ⟨SameText.symm, SameText.symm⟩
      · exact (hrep.conflictsWith_iff.mp hi).1 rfl
      · obtain ⟨-, key, hkey, -, hkj⟩ := hrep.conflictsWith_iff.mp hij
        rw [hkj, Option.some.injEq] at hj
        exact hkey hj

/-- A column whose texts must be unique, and not too short. -/
def codes : Column :=
  ⟨"code", "Code", .text, .text "\x7b\"validator\": \"string|exists:true|min:2\"\x7d", .null⟩

/-- A text that is held twice, once with blanks around it, and a blank one. -/
def codeRows : List Row :=
  [⟨1, "r1", [("code", "A1")], none, none⟩, ⟨2, "r2", [("code", " ")], none, none⟩,
    ⟨3, "r3", [("code", " A1 ")], none, none⟩]

/-- Whether a text is a rule by which texts must be unique. -/
def demandsUnique (source : String) : Bool :=
  match Rule.ofText source with
  | .ok (.text r) => r.unique
  | _ => false

theorem demandsUnique_iff {source : String} : demandsUnique source = true ↔
    ∃ r, Rule.ofText source = .ok (.text r) ∧ r.unique = true := by
  rw [demandsUnique]
  cases Rule.ofText source with
  | error e => simp
  | ok rule => cases rule <;> simp

theorem repeats_reported_codes :
    ∃ report, (run (Pass.start ⟨some 2, [], .midnight ⟨2026, 1, 1⟩⟩ codeRows [codes])
        Session.fresh).result "" = .ok (some report) ∧
      ConflictsWith report.violations 1 3 ∧ ∀ i, ¬ ConflictsWith report.violations i 2 := by
  obtain ⟨extra, hd⟩ : ∃ extra, RuleConfig.ofDescription codes.description =
      .ok (.found "string|exists:true|min:2" extra) :=
    RuleConfig.found_of_carries (by decide +kernel)
  obtain ⟨r, hr, hu⟩ : ∃ r, Rule.ofText "string|exists:true|min:2" = .ok (.text r) ∧
      r.unique = true :=
    demandsUnique_iff.mp (by decide +kernel)
  obtain ⟨hreport, hsays⟩ := repeats_reported codeRows hd hr hu rfl Nat.two_pos
    (List.mem_singleton.mpr rfl)
    (faithful_fresh ⟨some 2, [], .midnight ⟨2026, 1, 1⟩⟩ fun _ => ["Code"]) ""
  obtain ⟨report, hres⟩ := hreport Messages.writable_nil
  obtain ⟨hrep, -, -, hblank⟩ := hsays report hres
  refine ⟨report, hres, hrep.conflictsWith_iff.mpr ⟨by decide, "A1", ?_⟩, fun i hi => ?_⟩
  · decide +kernel
  · exact hblank i 2 hi (by decide +kernel)

end PassSchedule

end TableAudit
