import TableAudit.Defaults.Scripted
import TableAudit.Proofs.Defaults.Visits

/-!
# Visits to a scripted table

A run against a scripted table is populating against the table that replies as it does. A visit
takes at most two steps, and two more for every write whose failure is laid down, so the steps that
a run is given suffice: it visits the cells to the end, unless a payload without a text is read.
-/

namespace TableAudit.Defaults

namespace ScriptedTable

/-- A scripted table after what it was asked. -/
def after (t : ScriptedTable) (log : List Exchange) : ScriptedTable :=
  log.foldl (fun t x => (t.reply x.call).2) t

/-- The replies of a scripted table by what it was asked before. -/
def replies (t : ScriptedTable) (log : List Exchange) (c : TableCall) : TableReply :=
  ((t.after log).reply c).1

theorem after_concat (t : ScriptedTable) (log : List Exchange) (x : Exchange) :
    t.after (log ++ [x]) = ((t.after log).reply x.call).2 :=
  List.foldl_concat _ _ _ _

theorem answers (t : ScriptedTable) : Answers t.replies where
  read log columnId recordId := by
    rw [replies, reply]
    cases (t.after log).readFailures.lookup ⟨columnId, recordId⟩ with
    | some message => exact .inr ⟨message, rfl⟩
    | none => exact .inl ⟨_, rfl⟩
  write log columnId recordId value := by
    rw [replies, reply]
    obtain ⟨outcome, writes⟩ := takeOutcome ⟨columnId, recordId⟩ (t.after log).writes
    cases outcome with
    | accepted => exact .inl rfl
    | refused => exact .inr ⟨.refused, rfl⟩
    | failed message => exact .inr ⟨.failed message, rfl⟩

end ScriptedTable

/-! ### Steps -/

namespace ScriptedTable

/-- How many outcomes are laid down for writes. -/
def laidDown (writes : List (Place × List WriteOutcome)) : Nat :=
  (writes.map (·.2.length)).sum

theorem outcomesLeft_eq (t : ScriptedTable) : t.outcomesLeft = laidDown t.writes := by
  rw [outcomesLeft, laidDown, List.sum_eq_foldl, List.foldl_map]

/-- A write that does not succeed uses up an outcome. -/
theorem laidDown_takeOutcome (place : Place) (writes : List (Place × List WriteOutcome)) :
    (takeOutcome place writes).1 = .accepted ∧
        laidDown (takeOutcome place writes).2 ≤ laidDown writes ∨
      laidDown (takeOutcome place writes).2 + 1 ≤ laidDown writes := by
  induction writes with
  | nil => exact .inl ⟨rfl, Nat.le_refl _⟩
  | cons w writes ih =>
      obtain ⟨p, outcomes⟩ := w
      by_cases hp : p = place
      · cases outcomes with
        | nil => simp [takeOutcome, hp]
        | cons o os =>
            right
            simp only [takeOutcome, if_pos hp, laidDown, List.map_cons, List.sum_cons,
              List.length_cons]
            omega
      · cases htake : takeOutcome place writes with
        | mk o left =>
            simp only [htake, laidDown] at ih
            simp only [takeOutcome, if_neg hp, htake, laidDown, List.map_cons, List.sum_cons]
            exact ih.imp (fun h => ⟨h.1, Nat.add_le_add_left h.2 _⟩) (Nat.add_le_add_left · _)

theorem reply_cell (t : ScriptedTable) (columnId recordId : String) :
    (t.reply (.cell columnId recordId)).2 = t := by
  rw [reply]
  cases t.readFailures.lookup ⟨columnId, recordId⟩ <;> rfl

theorem reply_setCell (t : ScriptedTable) (columnId recordId : String) (value : Value) :
    (t.reply (.setCell columnId recordId value)).1 = .stored true ∧
        (t.reply (.setCell columnId recordId value)).2.outcomesLeft ≤ t.outcomesLeft ∨
      (t.reply (.setCell columnId recordId value)).2.outcomesLeft + 1 ≤ t.outcomesLeft := by
  have htake := laidDown_takeOutcome ⟨columnId, recordId⟩ t.writes
  simp only [outcomesLeft_eq, reply]
  cases h : takeOutcome ⟨columnId, recordId⟩ t.writes with
  | mk outcome writes =>
      rw [h] at htake
      cases outcome with
      | accepted => exact .inl ⟨rfl, htake.elim (·.2) (Nat.le_of_succ_le ·)⟩
      | refused => simpa using htake
      | failed message => simpa using htake

end ScriptedTable

namespace Population

/-- How many steps there are at most until the end, if all writes succeed. -/
def stepsLeft : Next → Nat
  | .ends _ => 0
  | .continues p =>
    match p.phase with
    | .reading => 2 * p.rest.length + 2
    | .writing _ => 2 * p.rest.length + 1
    | .waiting _ _ => 2 * p.rest.length + 2

theorem stepsLeft_turn (failures : List WriteFailure) (spots : List Spot) :
    stepsLeft (turn failures spots) = 2 * spots.length := by
  cases spots with
  | nil => rfl
  | cons s rest => exact (Nat.mul_succ 2 rest.length).symm

variable {p : Population} {c : TableCall}

theorem stepsLeft_afterFailure (policy : RetryPolicy) (p : Population) (r : Retry)
    (reason : String) :
    stepsLeft (p.afterFailure policy r reason) ≤ 2 * p.rest.length + 2 := by
  rw [afterFailure]
  cases r.afterFailure policy with
  | giveUp =>
      rw [fail, stepsLeft_turn]
      exact Nat.le_add_right _ _
  | again wait r => exact Nat.le_refl _

theorem stepsLeft_afterRead (policy : RetryPolicy) (p : Population) (payload : Value) :
    stepsLeft (p.afterRead policy payload) ≤ 2 * p.rest.length + 1 := by
  rw [afterRead]
  split
  next => exact Nat.zero_le _
  next =>
    split
    · split
      next => exact Nat.zero_le _
      next => exact Nat.le_refl _
    · rw [next, stepsLeft_turn]
      exact Nat.le_add_right _ _

theorem stepsLeft_read (policy : RetryPolicy) (t : ScriptedTable) (s : Spot) (rest : List Spot)
    (failures : List WriteFailure) :
    stepsLeft (resume policy ⟨s, .reading, rest, failures⟩ (t.reply s.read).1) ≤
      2 * rest.length + 1 := by
  obtain ⟨payload, hp⟩ | ⟨message, hm⟩ := t.answers.read [] s.target.column.id s.recordId
  · rw [show (t.reply s.read).1 = .cell payload from hp]
    exact stepsLeft_afterRead policy ⟨s, .reading, rest, failures⟩ payload
  · rw [show (t.reply s.read).1 = .failed (.failure message) from hm]
    exact Nat.le_trans (Nat.le_of_eq (stepsLeft_turn _ rest)) (Nat.le_succ _)

/-- The wait after a write that does not succeed is made up for by the outcome that it uses up. -/
theorem stepsLeft_write (policy : RetryPolicy) (t : ScriptedTable) (s : Spot) (r : Retry)
    (rest : List Spot) (failures : List WriteFailure) :
    stepsLeft (resume policy ⟨s, .writing r, rest, failures⟩ (t.reply s.write).1) +
        2 * (t.reply s.write).2.outcomesLeft ≤ 2 * rest.length + 2 * t.outcomesLeft := by
  have hnext : stepsLeft (resume policy ⟨s, .writing r, rest, failures⟩ (.stored true)) =
      2 * rest.length := stepsLeft_turn _ rest
  obtain ⟨haccepted, hleft⟩ | hleft := t.reply_setCell s.target.column.id s.recordId s.target.value
  · rw [show (t.reply s.write).1 = .stored true from haccepted, hnext]
    exact Nat.add_le_add_left (Nat.mul_le_mul_left 2 hleft) _
  · have hsteps : stepsLeft (resume policy ⟨s, .writing r, rest, failures⟩ (t.reply s.write).1) ≤
        2 * rest.length + 2 := by
      obtain haccepted | ⟨x, hx⟩ :=
        t.answers.write [] s.target.column.id s.recordId s.target.value
      · rw [show (t.reply s.write).1 = .stored true from haccepted, hnext]
        exact Nat.le_add_right _ _
      · rw [show (t.reply s.write).1 = x.reply from hx, resume_rejected]
        exact stepsLeft_afterFailure policy ⟨s, .writing r, rest, failures⟩ r x.reason
    have hleft' : (t.reply s.write).2.outcomesLeft + 1 ≤ t.outcomesLeft := hleft
    omega

/-- A question takes a step, and two more for an outcome that it uses up. -/
theorem stepsLeft_resume (policy : RetryPolicy) (t : ScriptedTable) (h : p.need = .call c) :
    stepsLeft (p.resume policy (t.reply c).1) + 2 * (t.reply c).2.outcomesLeft + 1 ≤
      stepsLeft (.continues p) + 2 * t.outcomesLeft := by
  obtain ⟨s, phase, rest, failures⟩ := p
  cases phase with
  | reading =>
      obtain rfl : s.read = c := Need.call.inj h
      have hreply : (t.reply s.read).2 = t := t.reply_cell _ _
      have hhere : stepsLeft (.continues ⟨s, .reading, rest, failures⟩) = 2 * rest.length + 2 := rfl
      have hsteps := stepsLeft_read policy t s rest failures
      rw [hreply, hhere]
      omega
  | writing r =>
      obtain rfl : s.write = c := Need.call.inj h
      have hhere : stepsLeft (.continues ⟨s, .writing r, rest, failures⟩) =
          2 * rest.length + 1 := rfl
      have hsteps := stepsLeft_write policy t s r rest failures
      rw [hhere]
      omega
  | waiting => cases h

theorem stepsLeft_wake {wait : Number} (h : p.need = .sleep wait) :
    stepsLeft p.wake + 1 ≤ stepsLeft (.continues p) := by
  obtain ⟨s, phase, rest, failures⟩ := p
  cases phase with
  | reading => cases h
  | writing => cases h
  | waiting => exact Nat.le_refl _

theorem stepsLeft_pos (p : Population) : 0 < stepsLeft (.continues p) := by
  rw [stepsLeft]
  split <;> exact Nat.succ_pos _

end Population

section Run

open Population

variable {policy : RetryPolicy} {fuel : Nat} {t : ScriptedTable} {log : List Exchange} {n : Next}

theorem runFor_call {p : Population} {c : TableCall} (h : p.need = .call c) :
    runFor policy (fuel + 1) (t.after log) (.continues p) =
      (runFor policy fuel (t.after (log ++ [⟨c, t.replies log c⟩]))
        (p.resume policy (t.replies log c))).addCall c := by
  rw [runFor, h, t.after_concat]
  rfl

theorem runFor_sleep {p : Population} {wait : Number} (h : p.need = .sleep wait) :
    runFor policy (fuel + 1) t (.continues p) = (runFor policy fuel t p.wake).addWait wait := by
  rw [runFor, h]

/-- Given as many steps as there are left at most, a run comes to the end that the replies of the
table lead to, by the same questions. -/
theorem runFor_leads (policy : RetryPolicy)
    (h : stepsLeft n + 2 * (t.after log).outcomesLeft ≤ fuel) :
    ∃ done e, Leads policy t.replies log n (log ++ done) (.ends e) ∧
      (runFor policy fuel (t.after log) n).ending = some e ∧
      (runFor policy fuel (t.after log) n).calls = done.map (·.call) := by
  induction fuel generalizing log n with
  | zero =>
      cases n with
      | ends e => exact ⟨[], e, .nothing _ _, rfl, rfl⟩
      | continues p =>
          have hpos := stepsLeft_pos p
          omega
  | succ fuel ih =>
      cases n with
      | ends e => exact ⟨[], e, .nothing _ _, rfl, rfl⟩
      | continues p =>
          cases hneed : p.need with
          | call c =>
              have hsteps : stepsLeft (p.resume policy (t.replies log c)) +
                  2 * (t.after (log ++ [⟨c, t.replies log c⟩])).outcomesLeft ≤ fuel := by
                have hresume := stepsLeft_resume policy (t.after log) hneed
                rw [t.after_concat]
                exact Nat.le_of_succ_le_succ (Nat.le_trans hresume h)
              obtain ⟨done, e, hleads, hending, hcalls⟩ := ih hsteps
              rw [← List.append_cons] at hleads
              rw [runFor_call hneed]
              exact ⟨⟨c, t.replies log c⟩ :: done, e, .ask hneed hleads, hending,
                congrArg (c :: ·) hcalls⟩
          | sleep wait =>
              have hsteps : stepsLeft p.wake + 2 * (t.after log).outcomesLeft ≤ fuel := by
                have hwake := stepsLeft_wake hneed
                omega
              obtain ⟨done, e, hleads, hending, hcalls⟩ := ih hsteps
              rw [runFor_sleep hneed]
              exact ⟨done, e, .sleep hneed hleads, hending, hcalls⟩

/-- A run visits all cells in their order, and shows the questions of the visits and their
failures, unless a payload without a text is read. -/
theorem run_visits (hattempts : 1 ≤ policy.attempts) (t : ScriptedTable)
    (targets : List Target) (ids : List String) :
    ∃ log e, (Population.run policy t targets ids).ending = some e ∧
      (Population.run policy t targets ids).calls = log.map (·.call) ∧
      ((∃ failures, Course policy (spots targets ids) log failures ∧ e = .finished failures) ∨
        ∃ f, BreaksOff policy (spots targets ids) log f ∧ e = .fault f) := by
  have hsteps : stepsLeft (start targets ids) + 2 * (t.after []).outcomesLeft ≤
      2 * (spots targets ids).length + 2 * t.outcomesLeft + 1 := by
    rw [start, stepsLeft_turn]
    exact Nat.le_succ _
  obtain ⟨log, e, hleads, hending, hcalls⟩ := runFor_leads policy hsteps
  refine ⟨log, e, hending, hcalls, ?_⟩
  obtain ⟨log', failures, hcourse, hfinished⟩ | ⟨log', f, hbreaks, hfault⟩ :=
    leads_course hattempts t.answers (spots targets ids) [] []
  · obtain ⟨rfl, rfl⟩ := hleads.unique hfinished
    exact .inl ⟨failures, hcourse, rfl⟩
  · obtain ⟨rfl, rfl⟩ := hleads.unique hfault
    exact .inr ⟨f, hbreaks, rfl⟩

end Run

end TableAudit.Defaults
