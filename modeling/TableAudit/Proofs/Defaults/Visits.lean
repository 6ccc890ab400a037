import TableAudit.Defaults.Population
import TableAudit.Proofs.Cell.Texts
import TableAudit.Proofs.Fault

/-!
# Visits to the cells of new records

Populating visits the cells of new records one after another. At each it reads, and if the payload
is blank it tries to write the default of the column, as often as the policy allows. What it asks
and what it returns can be said visit by visit, whatever the table replies. Only a payload without
a text breaks it off.
-/

namespace TableAudit.Defaults

/-! ### Targets -/

/-- A value is what a column holds for the default that its rule declares. -/
def HasDefault (c : Column) (v : Value) : Prop :=
  ∃ d, declared? c = .ok (some d) ∧ cellValue c d = .ok v

/-- The columns that can hold the default of their rule, in their order, each with what it holds for
it. -/
inductive TargetsOf : List Column → List Target → Prop
  | nil : TargetsOf [] []
  | skip {c : Column} {cs : List Column} {ts : List Target} (hnone : ∀ v, ¬ HasDefault c v)
      (tail : TargetsOf cs ts) : TargetsOf (c :: cs) ts
  | take {c : Column} {v : Value} {cs : List Column} {ts : List Target} (hv : HasDefault c v)
      (tail : TargetsOf cs ts) : TargetsOf (c :: cs) (⟨c, v⟩ :: ts)

section Targets

variable {c : Column} {columns : List Column} {t : Target} {ts : List Target} {v : Value}

theorem HasDefault.target? (h : HasDefault c v) : target? c = .ok (some ⟨c, v⟩) := by
  obtain ⟨d, hd, hv⟩ := h
  simp only [Defaults.target?, hd, hv]

theorem hasDefault_of_target? (h : target? c = .ok (some t)) :
    t.column = c ∧ HasDefault c t.value := by
  simp only [target?] at h
  split at h
  next => cases h
  next => cases h
  next d hd =>
    split at h
    next v hv =>
      obtain rfl := Option.some.inj (Except.ok.inj h)
      exact ⟨rfl, d, hd, hv⟩
    next => cases h
    next => cases h

theorem targetsOf (h : targets columns = .ok ts) : TargetsOf columns ts := by
  induction columns generalizing ts with
  | nil =>
      obtain rfl := Except.ok.inj h
      exact .nil
  | cons c cs ih =>
      obtain ⟨t, ht, h⟩ := bind_ok_iff.mp h
      obtain ⟨ts', hts, h⟩ := bind_ok_iff.mp h
      obtain rfl := Except.ok.inj h
      cases t with
      | none =>
          refine .skip (fun v hv => ?_) (ih hts)
          rw [hv.target?] at ht
          cases ht
      | some t =>
          obtain ⟨rfl, hv⟩ := hasDefault_of_target? ht
          exact .take hv (ih hts)

end Targets

/-! ### Talking to a table -/

/-- A question and the reply to it. -/
structure Exchange where
  call : TableCall
  reply : TableReply

/-- Populating goes on against a table, which may reply by all that it was asked before. -/
inductive Leads (policy : RetryPolicy) (table : List Exchange → TableCall → TableReply) :
    List Exchange → Next → List Exchange → Next → Prop
  | here (log : List Exchange) (n : Next) : Leads policy table log n log n
  | ask {p : Population} {c : TableCall} {log log' : List Exchange} {n : Next}
      (hneed : p.need = .call c)
      (tail : Leads policy table (log ++ [⟨c, table log c⟩]) (p.resume policy (table log c))
        log' n) : Leads policy table log (.continues p) log' n
  | sleep {p : Population} {wait : Number} {log log' : List Exchange} {n : Next}
      (hneed : p.need = .sleep wait) (tail : Leads policy table log p.wake log' n) :
      Leads policy table log (.continues p) log' n

section Leads

variable {policy : RetryPolicy} {table : List Exchange → TableCall → TableReply}
variable {log log' log'' : List Exchange} {n n' n'' : Next} {e e' : Ending}

theorem Leads.nothing (log : List Exchange) (n : Next) :
    Leads policy table log n (log ++ []) n := by
  rw [List.append_nil]
  exact .here log n

theorem Leads.trans (h : Leads policy table log n log' n')
    (h' : Leads policy table log' n' log'' n'') : Leads policy table log n log'' n'' := by
  induction h with
  | here => exact h'
  | ask hneed _ ih => exact .ask hneed (ih h')
  | sleep hneed _ ih => exact .sleep hneed (ih h')

/-- Populating a table ends in one way at most. -/
theorem Leads.unique (h : Leads policy table log n log' (.ends e))
    (h' : Leads policy table log n log'' (.ends e')) : log'' = log' ∧ e' = e := by
  -- What is needed and what is replied are fixed by where the first way stands.
  generalize hend : Next.ends e = last at h
  induction h with
  | here =>
      subst hend
      cases h'
      exact ⟨rfl, rfl⟩
  | ask hneed _ ih =>
      cases h' with
      | ask hneed' tail =>
          obtain rfl := Need.call.inj (hneed.symm.trans hneed')
          exact ih tail hend
      | sleep hneed' => cases hneed.symm.trans hneed'
  | sleep hneed _ ih =>
      cases h' with
      | ask hneed' => cases hneed.symm.trans hneed'
      | sleep hneed' tail => exact ih tail hend

/-- The replies are those that a table gave by what it was asked before. -/
def Answered (table : List Exchange → TableCall → TableReply) (log : List Exchange) : Prop :=
  ∀ before x later, log = before ++ x :: later → x.reply = table before x.call

theorem answered_nil (table : List Exchange → TableCall → TableReply) : Answered table [] := by
  intro before x later h
  exact absurd h.symm (List.append_ne_nil_of_right_ne_nil _ (List.cons_ne_nil _ _))

theorem Answered.concat (h : Answered table log) (c : TableCall) :
    Answered table (log ++ [⟨c, table log c⟩]) := by
  intro before x later hlog
  obtain rfl | ⟨later, y, rfl⟩ := List.eq_nil_or_concat later
  · obtain ⟨rfl, hx⟩ := List.append_inj' hlog rfl
    obtain rfl := List.singleton_inj.mp hx
    rfl
  · rw [List.concat_eq_append, ← List.cons_append, ← List.append_assoc] at hlog
    exact h before x later (List.append_inj' hlog rfl).1

theorem Leads.answered (h : Leads policy table log n log' n') (hlog : Answered table log) :
    Answered table log' := by
  induction h with
  | here => exact hlog
  | ask _ _ ih => exact ih (hlog.concat _)
  | sleep _ _ ih => exact ih hlog

end Leads

/-! ### Visits -/

/-- Why a write did not succeed. -/
inductive Rejection
  | refused
  | failed (message : String)

namespace Rejection

/-- What the table replied. -/
def reply : Rejection → TableReply
  | refused => .stored false
  | failed message => .failed (.failure message)

/-- The wording in a failure. -/
def reason : Rejection → String
  | refused => Population.refusedText
  | failed message => message

end Rejection

/-- A table answers: a read has a payload or fails, a write succeeds or does not. -/
structure Answers (table : List Exchange → TableCall → TableReply) : Prop where
  read : ∀ log columnId recordId,
    (∃ payload, table log (.cell columnId recordId) = .cell payload) ∨
      ∃ message, table log (.cell columnId recordId) = .failed (.failure message)
  write : ∀ log columnId recordId value,
    table log (.setCell columnId recordId value) = .stored true ∨
      ∃ x : Rejection, table log (.setCell columnId recordId value) = x.reply

namespace Spot

variable (s : Spot)

/-- The question what the cell holds. -/
def read : TableCall :=
  .cell s.target.column.id s.recordId

/-- The request to store the default. -/
def write : TableCall :=
  .setCell s.target.column.id s.recordId s.target.value

/-- A failure at the cell. -/
def failure (reason : String) : WriteFailure :=
  ⟨s.target.column.name, s.recordId, reason⟩

/-- The normal text of a payload of the cell. -/
def text (payload : Value) : Except Fault String :=
  Cell.writtenText s.target.column.type payload

/-- The cell is blank if it holds a payload. -/
def IsBlank (payload : Value) : Prop :=
  ∃ text, s.text payload = .ok text ∧ Text.isBlankText text = true

/-- The cell is filled if it holds a payload. -/
def IsFilled (payload : Value) : Prop :=
  ∃ text, s.text payload = .ok text ∧ Text.isBlankText text = false

end Spot

/-- What the attempts to write came to: after some without success one succeeded, or none did. -/
inductive Writing
  | stored (rejections : List Rejection)
  | lost (rejections : List Rejection) (last : Rejection)

namespace Writing

/-- One more attempt without success, before the others. -/
def after (x : Rejection) : Writing → Writing
  | stored rejections => stored (x :: rejections)
  | lost rejections last => lost (x :: rejections) last

/-- Success came within so many attempts, or there were as many. -/
def Within (attempts : Nat) : Writing → Prop
  | stored rejections => rejections.length + 1 ≤ attempts
  | lost rejections _ => rejections.length + 1 = attempts

/-- The attempts at a cell. -/
def log (s : Spot) : Writing → List Exchange
  | stored rejections =>
    rejections.map (fun x => ⟨s.write, x.reply⟩) ++ [⟨s.write, .stored true⟩]
  | lost rejections last =>
    rejections.map (fun x => ⟨s.write, x.reply⟩) ++ [⟨s.write, last.reply⟩]

/-- The failure at a cell, if no attempt succeeded. -/
def failures (s : Spot) : Writing → List WriteFailure
  | stored _ => []
  | lost _ last => [s.failure last.reason]

theorem Within.after {attempts : Nat} {w : Writing} (h : w.Within attempts) (x : Rejection) :
    (w.after x).Within (attempts + 1) := by
  cases w with
  | stored => exact Nat.succ_le_succ h
  | lost => exact congrArg Nat.succ h

theorem log_after (s : Spot) (x : Rejection) (w : Writing) :
    (w.after x).log s = ⟨s.write, x.reply⟩ :: w.log s := by
  cases w <;> rfl

theorem failures_after (s : Spot) (x : Rejection) (w : Writing) :
    (w.after x).failures s = w.failures s := by
  cases w <;> rfl

end Writing

/-- What a visit to a cell came to. -/
inductive Visit
  /-- The cell could not be read. -/
  | unread (message : String)
  /-- The cell was not blank. -/
  | kept (payload : Value)
  /-- The cell was blank. -/
  | written (payload : Value) (w : Writing)

namespace Visit

/-- A visit went by what was read, and within the attempts of a policy. -/
def Follows (policy : RetryPolicy) (s : Spot) : Visit → Prop
  | unread _ => True
  | kept payload => s.IsFilled payload
  | written payload w => s.IsBlank payload ∧ w.Within policy.attempts.toNat

/-- The exchanges of a visit to a cell. -/
def log (s : Spot) : Visit → List Exchange
  | unread message => [⟨s.read, .failed (.failure message)⟩]
  | kept payload => [⟨s.read, .cell payload⟩]
  | written payload w => ⟨s.read, .cell payload⟩ :: w.log s

/-- The failure of a visit to a cell, if any. -/
def failures (s : Spot) : Visit → List WriteFailure
  | unread message => [s.failure message]
  | kept _ => []
  | written _ w => w.failures s

end Visit

/-- Cells were visited one after another, with some exchanges and failures. -/
inductive Course (policy : RetryPolicy) :
    List Spot → List Exchange → List WriteFailure → Prop
  | nil : Course policy [] [] []
  | cons {s : Spot} {v : Visit} {spots : List Spot} {log : List Exchange}
      {failures : List WriteFailure} (hv : v.Follows policy s)
      (tail : Course policy spots log failures) :
      Course policy (s :: spots) (v.log s ++ log) (v.failures s ++ failures)

/-- At one of the cells a payload without a text was read. -/
def BreaksOff (policy : RetryPolicy) (spots : List Spot) (log : List Exchange) (f : Fault) :
    Prop :=
  ∃ visited s rest earlier failures payload, spots = visited ++ s :: rest ∧
    Course policy visited earlier failures ∧ log = earlier ++ [⟨s.read, .cell payload⟩] ∧
    s.text payload = .error f

theorem BreaksOff.after {policy : RetryPolicy} {s : Spot} {v : Visit} {spots : List Spot}
    {log : List Exchange} {f : Fault} (h : BreaksOff policy spots log f)
    (hv : v.Follows policy s) : BreaksOff policy (s :: spots) (v.log s ++ log) f := by
  obtain ⟨visited, s', rest, earlier, failures, payload, rfl, hcourse, rfl, hf⟩ := h
  exact ⟨s :: visited, s', rest, v.log s ++ earlier, v.failures s ++ failures, payload, rfl,
    .cons hv hcourse, (List.append_assoc _ _ _).symm, hf⟩

section Visits

variable {policy : RetryPolicy} {table : List Exchange → TableCall → TableReply}
variable {spots rest : List Spot} {s : Spot} {f : Fault} {x : Rejection} {r : Retry}
variable {log log' : List Exchange} {reply : TableReply} {failures : List WriteFailure} {n : Next}
variable {payload : Value} {c : Column} {columns : List Column} {ts : List Target}

theorem leads_read (hreply : table log s.read = reply)
    (h : Leads policy table (log ++ [⟨s.read, reply⟩])
      (Population.resume policy ⟨s, .reading, rest, failures⟩ reply) log' n) :
    Leads policy table log (.continues ⟨s, .reading, rest, failures⟩) log' n := by
  subst hreply
  exact .ask rfl h

theorem leads_write (hreply : table log s.write = reply)
    (h : Leads policy table (log ++ [⟨s.write, reply⟩])
      (Population.resume policy ⟨s, .writing r, rest, failures⟩ reply) log' n) :
    Leads policy table log (.continues ⟨s, .writing r, rest, failures⟩) log' n := by
  subst hreply
  exact .ask rfl h

/-- A write that succeeds leads to the next cell. -/
theorem leads_accepted (haccepted : table log s.write = .stored true) :
    Leads policy table log (.continues ⟨s, .writing r, rest, failures⟩)
      (log ++ (Writing.stored []).log s)
        (Population.turn (failures ++ (Writing.stored []).failures s) rest) := by
  rw [Writing.failures, List.append_nil]
  exact leads_write haccepted (.here _ _)

theorem resume_rejected (s : Spot) (r : Retry) (rest : List Spot) (failures : List WriteFailure)
    (x : Rejection) : Population.resume policy ⟨s, .writing r, rest, failures⟩ x.reply =
      Population.afterFailure policy ⟨s, .writing r, rest, failures⟩ r x.reason := by
  cases x <;> rfl

/-- From an attempt on, writing leads to the next cell within the attempts that are left. -/
theorem leads_writing (htable : Answers table) (s : Spot) (rest : List Spot)
    (failures : List WriteFailure) (left : Nat) (hr : r.attempt + left = policy.attempts)
    (log : List Exchange) : ∃ w : Writing, w.Within (left + 1) ∧
      Leads policy table log (.continues ⟨s, .writing r, rest, failures⟩) (log ++ w.log s)
        (Population.turn (failures ++ w.failures s) rest) := by
  -- On the attempts left after this one: the wait between two attempts asks nothing.
  induction left generalizing r log with
  | zero =>
      obtain haccepted | ⟨x, hx⟩ := htable.write log s.target.column.id s.recordId s.target.value
      · exact ⟨.stored [], Nat.le_refl 1, leads_accepted haccepted⟩
      · refine ⟨.lost [] x, rfl, leads_write hx ?_⟩
        have hlast : r.attempt = policy.attempts := by omega
        rw [resume_rejected, Population.afterFailure, Retry.afterFailure, if_pos hlast]
        exact .here _ _
  | succ left ih =>
      obtain haccepted | ⟨x, hx⟩ := htable.write log s.target.column.id s.recordId s.target.value
      · exact ⟨.stored [], Nat.le_add_left _ _, leads_accepted haccepted⟩
      · have hmore : r.attempt ≠ policy.attempts := by omega
        have hr' : r.attempt + 1 + left = policy.attempts := by omega
        obtain ⟨w, hw, hleads⟩ := @ih ⟨r.attempt + 1, r.delay.double⟩ hr'
          (log ++ [⟨s.write, x.reply⟩])
        rw [← List.append_cons, ← w.log_after, ← w.failures_after s x] at hleads
        refine ⟨w.after x, hw.after x, leads_write hx ?_⟩
        rw [resume_rejected, Population.afterFailure, Retry.afterFailure, if_neg hmore]
        exact .sleep rfl hleads

theorem resume_filled (h : s.IsFilled payload) :
    Population.resume policy ⟨s, .reading, rest, failures⟩ (.cell payload) =
      Population.turn failures rest := by
  obtain ⟨text, htext, hblank⟩ := h
  rw [Spot.text] at htext
  simp [Population.resume, Population.afterRead, htext, hblank, Population.next]

theorem resume_blank (hattempts : 1 ≤ policy.attempts) (h : s.IsBlank payload) :
    Population.resume policy ⟨s, .reading, rest, failures⟩ (.cell payload) =
      .continues ⟨s, .writing ⟨1, policy.baseDelay⟩, rest, failures⟩ := by
  obtain ⟨text, htext, hblank⟩ := h
  rw [Spot.text] at htext
  simp [Population.resume, Population.afterRead, htext, hblank, Retry.begin?,
    Int.not_lt.mpr hattempts]

theorem resume_error (h : s.text payload = .error f) :
    Population.resume policy ⟨s, .reading, rest, failures⟩ (.cell payload) = .ends (.fault f) := by
  rw [Spot.text] at h
  simp [Population.resume, Population.afterRead, h]

theorem text_cases (s : Spot) (payload : Value) :
    s.IsFilled payload ∨ s.IsBlank payload ∨ ∃ f, s.text payload = .error f := by
  cases htext : s.text payload with
  | error f => exact .inr (.inr ⟨f, rfl⟩)
  | ok text =>
      cases hblank : Text.isBlankText text with
      | false => exact .inl ⟨text, htext, hblank⟩
      | true => exact .inr (.inl ⟨text, htext, hblank⟩)

/-- A cell is visited and leads to the next one, unless a payload without a text is read. -/
theorem leads_visit (hattempts : 1 ≤ policy.attempts) (htable : Answers table) (s : Spot)
    (rest : List Spot) (failures : List WriteFailure) (log : List Exchange) :
    (∃ v : Visit, v.Follows policy s ∧
      Leads policy table log (.continues ⟨s, .reading, rest, failures⟩) (log ++ v.log s)
        (Population.turn (failures ++ v.failures s) rest)) ∨
    ∃ payload f, s.text payload = .error f ∧
      Leads policy table log (.continues ⟨s, .reading, rest, failures⟩)
        (log ++ [⟨s.read, .cell payload⟩]) (.ends (.fault f)) := by
  obtain ⟨payload, hread⟩ | ⟨message, hread⟩ := htable.read log s.target.column.id s.recordId
  · obtain hfilled | hblank | ⟨f, hf⟩ := text_cases s payload
    · refine .inl ⟨.kept payload, hfilled, leads_read hread ?_⟩
      rw [resume_filled hfilled, Visit.failures, List.append_nil]
      exact .here _ _
    · have hleft : (⟨1, policy.baseDelay⟩ : Retry).attempt + (policy.attempts.toNat - 1 : Nat) =
          policy.attempts := by
        simp only
        omega
      obtain ⟨w, hw, hleads⟩ := leads_writing htable s rest failures _ hleft
        (log ++ [⟨s.read, .cell payload⟩])
      rw [← List.append_cons] at hleads
      refine .inl ⟨.written payload w, ⟨hblank, ?_⟩, leads_read hread ?_⟩
      · rwa [Nat.sub_add_cancel (by omega)] at hw
      · rw [resume_blank hattempts hblank]
        exact hleads
    · refine .inr ⟨payload, f, hf, leads_read hread ?_⟩
      rw [resume_error hf]
      exact .here _ _
  · exact .inl ⟨.unread message, trivial, leads_read hread (.here _ _)⟩

/-- All cells are visited in their order, unless a payload without a text is read. -/
theorem leads_course (hattempts : 1 ≤ policy.attempts) (htable : Answers table)
    (spots : List Spot) (failures : List WriteFailure) (log : List Exchange) :
    (∃ done lost, Course policy spots done lost ∧
      Leads policy table log (Population.turn failures spots) (log ++ done)
        (.ends (.finished (failures ++ lost)))) ∨
    ∃ done f, BreaksOff policy spots done f ∧
      Leads policy table log (Population.turn failures spots) (log ++ done)
        (.ends (.fault f)) := by
  induction spots generalizing failures log with
  | nil =>
      refine .inl ⟨[], [], .nil, ?_⟩
      rw [List.append_nil failures]
      exact .nothing _ _
  | cons s rest ih =>
      obtain ⟨v, hv, hleads⟩ | ⟨payload, f, hf, hleads⟩ :=
        leads_visit hattempts htable s rest failures log
      · obtain ⟨done, lost, hcourse, hrest⟩ | ⟨done, f, hbreaks, hrest⟩ :=
          ih (failures ++ v.failures s) (log ++ v.log s)
        · refine .inl ⟨v.log s ++ done, v.failures s ++ lost, .cons hv hcourse, ?_⟩
          rw [← List.append_assoc, ← List.append_assoc]
          exact hleads.trans hrest
        · refine .inr ⟨v.log s ++ done, f, hbreaks.after hv, ?_⟩
          rw [← List.append_assoc]
          exact hleads.trans hrest
      · exact .inr ⟨_, f, ⟨[], s, rest, [], [], payload, rfl, .nil, rfl, hf⟩, hleads⟩

/-- Whether the rule of a column declares a text as the default. -/
def declares (c : Column) (s : String) : Bool :=
  match declared? c with
  | .ok (some (.text t)) => t == s
  | _ => false

theorem declared?_of_declares {d : String} (h : declares c d = true) :
    declared? c = .ok (some (.text d)) := by
  rw [declares] at h
  split at h
  next d' hd =>
    obtain rfl := eq_of_beq h
    exact hd
  next => cases h

theorem hasDefault_of_declares {d : String} (htype : c.type = .text)
    (h : declares c d = true) : HasDefault c (.text d) := by
  have htext : defaultText (.text d) = .ok d := rfl
  refine ⟨.text d, declared?_of_declares h, ?_⟩
  rw [cellValue, htext]
  simp only [cellValueOf, htype]

/-- A column of texts whose new cells hold a text. -/
def status : Column :=
  ⟨"status", "Status", .text, .text "\x7b\"validator\": \"string|default:new\"\x7d", .null⟩

theorem targets_status : targets [status] = .ok [⟨status, .text "new"⟩] := by
  have hd : HasDefault status (.text "new") := hasDefault_of_declares rfl (by decide +kernel)
  rw [targets, hd.target?]
  rfl

/-- A table whose cells are blank refuses the first write. -/
def reluctant (log : List Exchange) : TableCall → TableReply
  | .cell _ _ => .cell .null
  | .setCell _ _ _ => .stored (decide (1 < log.length))
  | _ => .failed (.fault .wrongKind)

theorem reluctant_answers : Answers reluctant where
  read _ _ _ := .inl ⟨.null, rfl⟩
  write log _ _ _ := by
    by_cases h : 1 < log.length
    · exact .inl (congrArg TableReply.stored (decide_eq_true h))
    · exact .inr ⟨.refused, congrArg TableReply.stored (decide_eq_false h)⟩

/-- A table whose cells hold an integer. -/
def counting (n : Int) : List Exchange → TableCall → TableReply
  | _, .cell _ _ => .cell (.int n)
  | _, _ => .stored true

theorem counting_answers (n : Int) : Answers (counting n) where
  read _ _ _ := .inl ⟨.int n, rfl⟩
  write _ _ _ _ := .inl rfl

/-- An integer with too many digits ends populating at the cell that holds it. -/
theorem leads_counting {n : Int} (hn : ¬ Value.IsShort n) (hs : s.target.column.type = .text) :
    Leads policy (counting n) [] (Population.turn failures (s :: rest))
      [⟨s.read, .cell (.int n)⟩] (.ends (.fault .digitLimit)) := by
  have hwritable : (Cell.ofPayload .text (.int n)).isWritable = false := by
    rw [← Bool.not_eq_true, Cell.isWritable_cell_iff]
    exact fun h => hn (h n (Cell.takes_int rfl n))
  have hf : s.text (.int n) = .error .digitLimit := by
    simp [Spot.text, hs, Cell.writtenText, Cell.written, hwritable]
  have hread : counting n [] s.read = .cell (.int n) := rfl
  refine leads_read hread ?_
  rw [resume_error hf]
  exact .here _ _

end Visits

end TableAudit.Defaults
