import TableAudit.Proofs.Check.Obstacles
import TableAudit.Proofs.Pass.Schedule
import TableAudit.Proofs.Rule.Defects

/-!
# Passes that end with a report

A pass over columns whose rules can all be used ends with a report if nothing stands in the way of
the check of any cell, and it ends with a fault if some column has a cell that its check cannot
decide.
-/

namespace TableAudit

variable {o : PassOptions} {rows : List Row} {s : Session} {c : Column} {columns : List Column}
variable {names : String → List String} {field : String} {check : Check} {size : Nat}

namespace ColumnRun

/-- The check of a column under a name. -/
def MadeFor (o : PassOptions) (rows : List Row) (field : String) (c : Column) (check : Check) :
    Prop :=
  ∃ source extra, RuleConfig.ofDescription c.description = .ok (.found source extra) ∧
    Check.compile source (cellValues c.id rows) field o.messages o.now = .ok check

/-- Nothing stands in the way of the check of any cell of a column. -/
def Clear (o : PassOptions) (rows : List Row) (field : String) (c : Column) : Prop :=
  ∀ check, MadeFor o rows field c check → ∀ row ∈ rows, ¬ check.Obstacle (row.text c.id)

theorem MadeFor.under (h : MadeFor o rows field c check) (field' : String) :
    MadeFor o rows field' c { check with field := field' } := by
  obtain ⟨source, extra, hd, hm⟩ := h
  refine ⟨source, extra, hd, ?_⟩
  simp only [Check.compile] at hm ⊢
  cases hr : Rule.ofText source with
  | error e =>
      rw [hr] at hm
      cases hm
  | ok rule =>
      rw [hr] at hm
      cases hm
      rfl

theorem MadeFor.now (h : MadeFor o rows field c check) : check.now = o.now := by
  obtain ⟨source, extra, -, hm⟩ := h
  simp only [Check.compile] at hm
  cases hr : Rule.ofText source with
  | error e =>
      rw [hr] at hm
      cases hm
  | ok rule =>
      rw [hr] at hm
      cases hm
      rfl

theorem MadeFor.unique {check' : Check} (h : MadeFor o rows field c check)
    (h' : MadeFor o rows field c check') : check = check' := by
  obtain ⟨source, extra, hd, hm⟩ := h
  obtain ⟨source', extra', hd', hm'⟩ := h'
  rw [hd] at hd'
  cases hd'
  exact Except.ok.inj (hm.symm.trans hm')

theorem alone_of_madeFor (h : MadeFor o rows field c check) :
    alone o rows field c = finish o.chunkSize (firstChecking rows c check) := by
  obtain ⟨source, extra, hd, hm⟩ := h
  simp [alone, hd, hm]

/-- By itself a column comes to its outcome exactly if all its cells can be checked. -/
theorem alone_ok_iff (hsize : o.chunkSize = some size) (hnow : o.now.offset ≠ none)
    (h : MadeFor o rows field c check) :
    (∃ out, alone o rows field c = .ok out) ↔ Clear o rows field c := by
  have hchunk : (∃ out, alone o rows field c = .ok out) ↔
      ∃ failures, checkChunk check (entries c.id rows) = .ok failures := by
    rw [alone_of_madeFor h, hsize]
    constructor
    · rintro ⟨out, hout⟩
      obtain ⟨failures, hf, -⟩ := finish_ok_iff.mp hout
      exact ⟨failures, hf⟩
    · rintro ⟨failures, hf⟩
      exact ⟨_, finish_ok_iff.mpr ⟨failures, hf, rfl⟩⟩
  have hcheck : check.now.offset ≠ none := by rwa [h.now]
  rw [hchunk, checkChunk_ok_iff]
  constructor
  · intro hall check' h' row hrow
    obtain rfl := h.unique h'
    have htext : row.text c.id ∈ (entries c.id rows).map (·.text) := by
      rw [entries_texts]
      exact List.mem_map_of_mem hrow
    obtain ⟨e, he, ht⟩ := List.mem_map.mp htext
    rw [← ht, ← Check.run_ok_iff hcheck]
    exact hall e he
  · intro hclear e he
    have htext : e.text ∈ rows.map (·.text c.id) := by
      rw [← entries_texts]
      exact List.mem_map_of_mem he
    obtain ⟨row, hrow, ht⟩ := List.mem_map.mp htext
    rw [Check.run_ok_iff hcheck, ← ht]
    exact hclear check h row hrow

end ColumnRun

namespace PassSchedule

open ColumnRun

/-- How the cells of an example are checked. -/
def dayOptions : PassOptions :=
  ⟨some 1000, [], .midnight ⟨2026, 1, 1⟩⟩

/-- A column of dates that expire after a day. -/
def deadlines : Column :=
  ⟨"due", "Due", .text, .text "\x7b\"validator\": \"date|expire:1d\"\x7d", .null⟩

/-- A row with a date. -/
def dueRow (text : String) : Row :=
  ⟨1, "r1", [("due", text)], none, none⟩

theorem deadlines_carry : RuleConfig.carries deadlines.description "date|expire:1d" = true := by
  decide +kernel

theorem deadlines_made (rows : List Row) :
    ∃ check, MadeFor dayOptions rows deadlines.name deadlines check := by
  obtain ⟨extra, hd⟩ := RuleConfig.found_of_carries deadlines_carry
  have hok : (Rule.ofText "date|expire:1d").isOk = true := by decide +kernel
  cases hr : Rule.ofText "date|expire:1d" with
  | error e =>
      rw [hr] at hok
      cases hok
  | ok rule => exact ⟨_, _, extra, hd, by rw [Check.compile, hr]; rfl⟩

/-- A date that has expired, one that has not, a blank cell and a text that is no date. -/
def plainRows : List Row :=
  ["2025-12-01", "2026-01-01", " ", "soon"].map dueRow

end PassSchedule

end TableAudit

/-!
## What descriptions make of columns

The description of a column leads to no rule, to one issue, or to a check; unless it has a defect,
at which a pass breaks off. So a pass over columns without a defect breaks off at a cell or ends
with a report, and the report then has the issues of the columns in their order.
-/

namespace TableAudit

variable {o : PassOptions} {rows : List Row} {s : Session} {c : Column} {columns : List Column}
variable {names : String → List String} {field : String} {size : Nat} {description : Value}

namespace RuleConfig

/-- The text that carries the rule has an integer of too many digits in it. -/
def Unread (description : Value) : Prop :=
  ∃ text, carrier? description = some text ∧ Json.read (Text.trim text) = .error .digitLimit

/-- Looking for the rule breaks off exactly if the text that carries it cannot be read. -/
theorem ofDescription_error_iff :
    (∃ f, ofDescription description = .error f) ↔ Unread description := by
  simp only [ofDescription, Unread]
  cases carrier? description with
  | none => simp
  | some text =>
      cases hj : Json.read (Text.trim text) with
      | ok v => simp [hj]
      | error e => cases e <;> simp [hj]

/-- A description has a defect. -/
inductive Defect (description : Value) : Prop
  /-- The text that carries the rule cannot be read. -/
  | unread (unread : Unread description)
  /-- The rule has a defect. -/
  | rule (source : String) (extra : List (Value × Value))
      (found : ofDescription description = .ok (.found source extra))
      (defect : Rule.Defect source)

end RuleConfig

namespace Check

/-- Making a check breaks off exactly if the text of the rule has a defect. -/
theorem compile_faulty_iff (source : String) (column : List Value) (field : String)
    (messages : Messages) (now : Calendar.Moment) :
    Rule.Faulty (compile source column field messages now) ↔ Rule.Defect source := by
  simp only [compile, Rule.faulty_bind, Rule.not_faulty_ok, and_false, exists_false, or_false]
  exact Rule.ofText_faulty_iff

end Check

/-- What the description of a column makes of it. -/
inductive Configured
  | noRule
  | issue (i : Issue)
  | check (c : Check)

namespace Configured

/-- How the column ends, if its cells can be checked. -/
def status : Configured → ColumnStatus
  | noRule => .noRule
  | issue _ => .failed
  | check _ => .validated

/-- The issues of the column. -/
def issues : Configured → List Issue
  | issue i => [i]
  | _ => []

/-- The issue, if there is nothing else. -/
def issue? : Configured → Option Issue
  | issue i => some i
  | _ => none

theorem issue?_eq_some_iff {x : Except Fault Configured} {i : Issue} :
    x.toOption.bind issue? = some i ↔ x = .ok (.issue i) := by
  cases x with
  | error f => simp [Except.toOption]
  | ok w => cases w <;> simp [Except.toOption, issue?]

end Configured

namespace ColumnRun

/-- Find the rule of a column, and make its check under a name. -/
def configure (o : PassOptions) (rows : List Row) (field : String) (c : Column) :
    Except Fault Configured :=
  match RuleConfig.ofDescription c.description with
  | .error f => .error f
  | .ok .absent => .ok .noRule
  | .ok (.broken _ m) => .ok (.issue ⟨c.name, .brokenJson, RuleConfig.brokenText c.name m⟩)
  | .ok (.found source _) =>
    match Check.compile source (cellValues c.id rows) field o.messages o.now with
    | .error (.mistake m) => .ok (.issue ⟨c.name, .badRule, badRuleText c.name m⟩)
    | .error (.fault f) => .error f
    | .ok check => .ok (.check check)

/-- A column comes to what its description makes of it. -/
theorem alone_eq (o : PassOptions) (rows : List Row) (field : String) (c : Column) :
    alone o rows field c = (do
      match ← configure o rows field c with
      | .noRule => .ok ⟨⟨c.name, .noRule, 0, 0, 0⟩, none, []⟩
      | .issue i => .ok ⟨⟨c.name, .failed, 0, 0, 0⟩, none, [i]⟩
      | .check check => finish o.chunkSize (firstChecking rows c check)) := by
  simp only [alone, configure]
  cases RuleConfig.ofDescription c.description with
  | error f => rfl
  | ok config =>
      cases config with
      | absent => rfl
      | broken text m => rfl
      | found source extra =>
          dsimp only
          cases Check.compile source (cellValues c.id rows) field o.messages o.now with
          | error e => cases e <;> rfl
          | ok check => rfl

theorem configure_check_iff {check : Check} :
    configure o rows field c = .ok (.check check) ↔ MadeFor o rows field c check := by
  simp only [configure, MadeFor]
  cases RuleConfig.ofDescription c.description with
  | error f => simp
  | ok config =>
      cases config with
      | absent => simp
      | broken text m => simp
      | found source extra =>
          dsimp only
          cases hm : Check.compile source (cellValues c.id rows) field o.messages o.now with
          | error e => cases e <;> simp [hm]
          | ok check => simp [hm]

/-- The description of a column leads to no rule, an issue or a check, unless it has a defect. -/
theorem configure_error_iff (o : PassOptions) (rows : List Row) (field : String) (c : Column) :
    (∃ f, configure o rows field c = .error f) ↔ RuleConfig.Defect c.description := by
  constructor
  · rintro ⟨f, hf⟩
    cases hd : RuleConfig.ofDescription c.description with
    | error g => exact .unread (RuleConfig.ofDescription_error_iff.mp ⟨g, hd⟩)
    | ok config =>
        simp only [configure, hd] at hf
        cases config with
        | absent => cases hf
        | broken text m => cases hf
        | found source extra =>
            dsimp only at hf
            split at hf
            next => cases hf
            next g hm => exact .rule source extra hd ((Check.compile_faulty_iff ..).mp ⟨g, hm⟩)
            next => cases hf
  · intro h
    cases h with
    | unread h =>
        obtain ⟨f, hf⟩ := RuleConfig.ofDescription_error_iff.mpr h
        exact ⟨f, by simp [configure, hf]⟩
    | rule source extra hd hdefect =>
        obtain ⟨f, hf⟩ := (Check.compile_faulty_iff source (cellValues c.id rows) field o.messages
          o.now).mpr hdefect
        exact ⟨f, by simp [configure, hd, hf]⟩

/-- What a description makes of a column, but for the check itself, does not depend on the name
under which the check is made. -/
theorem configure_under {w : Configured} (h : configure o rows field c = .ok w)
    (field' : String) : ∃ w', configure o rows field' c = .ok w' ∧ w'.status = w.status ∧
      w'.issues = w.issues := by
  simp only [configure, Check.compile] at h ⊢
  cases hd : RuleConfig.ofDescription c.description with
  | error f => simp [hd] at h
  | ok config =>
      rw [hd] at h
      cases config with
      | absent => exact ⟨w, h, rfl, rfl⟩
      | broken text m => exact ⟨w, h, rfl, rfl⟩
      | found source extra =>
          dsimp only at h ⊢
          cases hr : Rule.ofText source with
          | error e =>
              rw [hr] at h
              cases e with
              | mistake m => exact ⟨w, h, rfl, rfl⟩
              | fault f => cases h
          | ok rule =>
              rw [hr] at h
              cases h
              exact ⟨_, rfl, rfl, rfl⟩

/-- The outcome of a column has the status and the issues that its description makes of it. -/
theorem configured_of_alone {out : ColumnOutcome} (h : alone o rows field c = .ok out) :
    ∃ w, configure o rows field c = .ok w ∧ out.stat.columnName = c.name ∧
      out.stat.status = w.status ∧ out.issues = w.issues := by
  rw [alone_eq] at h
  cases hw : configure o rows field c with
  | error f =>
      rw [hw] at h
      cases h
  | ok w =>
      refine ⟨w, rfl, ?_⟩
      rw [hw] at h
      cases w with
      | noRule =>
          cases h
          exact ⟨rfl, rfl, rfl⟩
      | issue i =>
          cases h
          exact ⟨rfl, rfl, rfl⟩
      | check check =>
          simp only [bind, Except.bind, finish] at h
          split at h
          next => cases h
          next =>
            split at h
            next => cases h
            next =>
              cases h
              exact ⟨rfl, rfl, rfl⟩

/-- A column without a defect comes to a fault only at one of its cells. -/
theorem not_clear_of_alone (hsize : o.chunkSize = some size) (hnow : o.now.offset ≠ none)
    (hd : ¬ RuleConfig.Defect c.description) {f : Fault} (h : alone o rows field c = .error f) :
    ¬ Clear o rows field c := by
  obtain ⟨w, hw⟩ : ∃ w, configure o rows field c = .ok w := by
    rw [← configure_error_iff o rows field c, exists_error_iff, not_not] at hd
    exact hd
  cases w with
  | noRule => simp [alone_eq, hw, bind, Except.bind] at h
  | issue i => simp [alone_eq, hw, bind, Except.bind] at h
  | check check =>
      rw [← alone_ok_iff hsize hnow (configure_check_iff.mp hw), ← exists_error_iff]
      exact ⟨f, h⟩

/-- The outcomes of columns, each under one of its names, have what the descriptions make of the
columns. -/
theorem configured_of_outcomes {outs : List ColumnOutcome}
    (h : List.Forall₂ (fun c out => ∃ field ∈ names c.id, alone o rows field c = .ok out)
      columns outs) :
    ∃ ws, List.Forall₂ (fun c w => configure o rows c.name c = .ok w) columns ws ∧
      outs.map (·.stat.columnName) = columns.map (·.name) ∧
      outs.map (·.stat.status) = ws.map (·.status) ∧
      outs.flatMap (·.issues) = ws.flatMap (·.issues) := by
  induction h with
  | nil => exact ⟨[], .nil, rfl, rfl, rfl⟩
  | @cons c out columns outs hout _ ih =>
      obtain ⟨ws, hws, hnames, hstatus, hissues⟩ := ih
      obtain ⟨field, -, halone⟩ := hout
      obtain ⟨w, hw, hname, hst, hiss⟩ := configured_of_alone halone
      obtain ⟨w', hw', hst', hiss'⟩ := configure_under hw c.name
      refine ⟨w' :: ws, .cons hw' hws, ?_, ?_, ?_⟩
      · rw [List.map_cons, List.map_cons, hname, hnames]
      · rw [List.map_cons, List.map_cons, hst, hst', hstatus]
      · rw [List.flatMap_cons, List.flatMap_cons, hiss, hiss', hissues]

end ColumnRun

namespace PassSchedule

open ColumnRun

/-- A column of texts under a rule. -/
def ruled (rule : String) : Column :=
  ⟨"f", "Name", .text, .text ("\x7b\"validator\": \"" ++ rule ++ "\"\x7d"), .null⟩

/-- What is wrong with a length below zero. -/
def negativeIssue : Issue :=
  ⟨"Name", .badRule,
    "invalid validator rule for column 'Name': 'min' must be a non-negative integer"⟩

theorem negative_configured :
    configure dayOptions plainRows "Name" (ruled "string|min:-1") = .ok (.issue negativeIssue) := by
  rw [← Configured.issue?_eq_some_iff]
  decide +kernel

end PassSchedule

end TableAudit
