import TableAudit.Proofs.Pass.Configuration

/-!
# Turns in any order

The columns of a pass may have their turns in any order. Where their identifiers differ, no column
touches what the session keeps for another one. So each of them comes to what the session makes of
it as the pass begins, and the cells that it puts to its check are those of all rows, in order,
however the turns of the columns are mixed and wherever chunks end.
-/

namespace TableAudit

variable {o : PassOptions} {rows : List Row} {s s' : Session} {c d : Column}
variable {columns : List Column} {check : Check} {w : Checking} {r : ColumnRun} {id : String}
variable {i j : Nat}

namespace ColumnRun

/-! ### What a session makes of a column -/

/-- The check of a rule that a session has for a column: the one that it keeps, if that was made
from the same rule and the same texts, or else a new one. -/
def checkIn (o : PassOptions) (rows : List Row) (s : Session) (c : Column) (source : String) :
    Except Rule.Refusal Check :=
  match s.matching? c.id source (some ((cellValues c.id rows).map Mark.ofValue)) with
  | some cached => .ok cached.check
  | none => Check.compile source (cellValues c.id rows) c.name o.messages o.now

/-- What its description makes of a column, with the check that a session has for it. -/
def configureIn (o : PassOptions) (rows : List Row) (s : Session) (c : Column) :
    Except Fault Configured :=
  match RuleConfig.ofDescription c.description with
  | .error f => .error f
  | .ok .absent => .ok .noRule
  | .ok (.broken _ m) => .ok (.issue ⟨c.name, .brokenJson, RuleConfig.brokenText c.name m⟩)
  | .ok (.found source _) =>
    match checkIn o rows s c source with
    | .error (.mistake m) => .ok (.issue ⟨c.name, .badRule, badRuleText c.name m⟩)
    | .error (.fault f) => .error f
    | .ok check => .ok (.check check)

/-- What a column comes to in a session. -/
def comesTo (o : PassOptions) (rows : List Row) (s : Session) (c : Column) :
    Except Fault ColumnOutcome :=
  match configureIn o rows s c with
  | .error f => .error f
  | .ok .noRule => .ok ⟨⟨c.name, .noRule, 0, 0, 0⟩, none, []⟩
  | .ok (.issue i) => .ok ⟨⟨c.name, .failed, 0, 0, 0⟩, none, [i]⟩
  | .ok (.check check) => finish o.chunkSize (firstChecking rows c check)

theorem configureIn_fresh (o : PassOptions) (rows : List Row) (c : Column) :
    configureIn o rows Session.fresh c = configure o rows c.name c := by
  unfold configureIn configure
  cases RuleConfig.ofDescription c.description with
  | error f => rfl
  | ok config => cases config <;> rfl

/-- What becomes of a column depends on what the session keeps for its identifier only. -/
theorem checkIn_congr (h : s.check? c.id = s'.check? c.id) (source : String) :
    checkIn o rows s c source = checkIn o rows s' c source := by
  simp only [checkIn, Session.matching?, h]

theorem configureIn_congr (h : s.check? c.id = s'.check? c.id) :
    configureIn o rows s c = configureIn o rows s' c := by
  simp only [configureIn, checkIn_congr h]

theorem checkFor_check (o : PassOptions) (rows : List Row) (s : Session) (c : Column)
    (source : String) :
    (s.checkFor c.id source (some ((cellValues c.id rows).map Mark.ofValue))
      (Check.compile source (cellValues c.id rows) c.name o.messages o.now)).1.map
        (·.cached.check) = checkIn o rows s c source := by
  simp only [Session.checkFor, Session.checkAcross, checkIn]
  cases s.matching? c.id source (some ((cellValues c.id rows).map Mark.ofValue)) with
  | some cached => rfl
  | none =>
      cases Check.compile source (cellValues c.id rows) c.name o.messages o.now <;> rfl

/-- Getting the check of one column leaves what is kept for the others. -/
theorem checkFor_check?_of_ne (h : id ≠ c.id) (source : String) (marks : Option (List Mark))
    (make : Except Rule.Refusal Check) :
    (s.checkFor c.id source marks make).2.check? id = s.check? id := by
  simp only [Session.checkFor, Session.checkAcross]
  cases s.matching? c.id source marks with
  | some cached => rfl
  | none =>
      cases make with
      | error e => rfl
      | ok check => exact (keepCheck_check? _ c.id id _).trans (if_neg h)

/-- The session after the check of a rule was gotten for a column. -/
def gotten (o : PassOptions) (rows : List Row) (s : Session) (c : Column) (source : String) :
    Session :=
  (s.checkFor c.id source (some ((cellValues c.id rows).map Mark.ofValue))
    (Check.compile source (cellValues c.id rows) c.name o.messages o.now)).2

/-- The first turn of a column ends it, or checks the first chunk of its rows. -/
theorem begin_run (o : PassOptions) (rows : List Row) (s : Session) (c : Column) :
    (begin o rows s c).run =
      match configureIn o rows s c with
      | .error f => .failed f
      | .ok .noRule => unchecked c.name .noRule []
      | .ok (.issue i) => unchecked c.name .failed [i]
      | .ok (.check check) => (advance o.chunkSize (firstChecking rows c check)).1 := by
  simp only [begin, configureIn]
  cases RuleConfig.ofDescription c.description with
  | error f => rfl
  | ok config =>
      cases config with
      | absent => rfl
      | broken text m => rfl
      | found source extra =>
          simp only [beginRule, ← checkFor_check]
          rw [← cellValues]
          cases (s.checkFor c.id source (some ((cellValues c.id rows).map Mark.ofValue))
            (Check.compile source (cellValues c.id rows) c.name o.messages o.now)).1 with
          | error e => cases e <;> rfl
          | ok obtained => rfl

/-- The first turn of a column gets its check, if it has a rule. -/
theorem begin_session (o : PassOptions) (rows : List Row) (s : Session) (c : Column) :
    (begin o rows s c).session =
      match RuleConfig.ofDescription c.description with
      | .ok (.found source _) => gotten o rows s c source
      | _ => s := by
  simp only [begin]
  cases RuleConfig.ofDescription c.description with
  | error f => rfl
  | ok config =>
      cases config with
      | absent => rfl
      | broken text m => rfl
      | found source extra =>
          simp only [beginRule, gotten]
          rw [← cellValues]
          cases (s.checkFor c.id source (some ((cellValues c.id rows).map Mark.ofValue))
            (Check.compile source (cellValues c.id rows) c.name o.messages o.now)).1 with
          | error e => cases e <;> rfl
          | ok obtained => rfl

theorem begin_check?_of_ne (h : id ≠ c.id) :
    (begin o rows s c).session.check? id = s.check? id := by
  rw [begin_session]
  split
  next source _ _ => exact checkFor_check?_of_ne h source _ _
  next => rfl

/-- No step of a column makes it wait. -/
theorem advance_ne_waiting (chunkSize : Option Nat) (w : Checking) (c : Column) :
    (advance chunkSize w).1 ≠ .waiting c := by
  cases chunkSize with
  | none => simp [advance]
  | some size =>
      simp only [advance, advanceBy]
      split
      · simp
      · split <;> simp

theorem turn_ne_waiting (hr : r.isOpen = true) (c : Column) :
    (r.turn o rows s).run ≠ .waiting c := by
  cases r with
  | waiting d =>
      rw [turn, begin_run]
      cases configureIn o rows s d with
      | error f => simp
      | ok made =>
          cases made with
          | check check => exact advance_ne_waiting _ _ c
          | _ => simp [unchecked]
  | checking w => exact advance_ne_waiting _ _ c
  | _ => cases hr

/-- A turn of one column leaves what is kept for the others. -/
theorem turn_check?_of_ne (hr : ∀ d, r = .waiting d → id ≠ d.id) :
    (r.turn o rows s).session.check? id = s.check? id := by
  cases r with
  | waiting d => exact begin_check?_of_ne (hr d rfl)
  | _ => rfl

/-! ### Cells put to checks -/

/-- What is wrong with the cells of a chunk, and the cells that are put to the check for it. -/
def checkTraced (check : Check) : List Entry → Except Fault (List Failure) × List Entry
  | [] => (.ok [], [])
  | e :: es =>
    match check.run (.text e.text) with
    | .error f => (.error f, [e])
    | .ok errors =>
      let (found, cells) := checkTraced check es
      (found.map fun fs =>
        if errors.isEmpty then fs else ⟨e.rowNumber, e.recordId, e.text, errors⟩ :: fs, e :: cells)

theorem checkTraced_value (check : Check) (es : List Entry) :
    (checkTraced check es).1 = checkChunk check es := by
  induction es with
  | nil => rfl
  | cons e es ih =>
      simp only [checkTraced, checkChunk, ← ih]
      cases check.run (.text e.text) with
      | error f => rfl
      | ok errors => cases (checkTraced check es).1 <;> rfl

/-- A chunk that has an outcome puts each of its cells to the check, once and in order. -/
theorem checkTraced_cells {es : List Entry} {fs : List Failure}
    (h : checkChunk check es = .ok fs) : (checkTraced check es).2 = es := by
  induction es generalizing fs with
  | nil => rfl
  | cons e es ih =>
      obtain ⟨errors, hr, rest, hrest, -⟩ := checkChunk_cons_iff.mp h
      simp only [checkTraced, hr, ih hrest]

/-- The next step of a column, and the cells that are put to its check in it. -/
def advanceTraced (chunkSize : Option Nat) (w : Checking) :
    (ColumnRun × List Log.Line) × List Entry :=
  match chunkSize with
  | none => ((.failed .wrongKind, []), [])
  | some size =>
    if w.pending.isEmpty then ((.ended (outcome w), [doneLine w]), [])
    else
      let (found, cells) := checkTraced w.check (w.pending.take size)
      match found with
      | .error f => ((.failed f, []), cells)
      | .ok failures =>
        ((.checking { w with
          pending := w.pending.drop size
          failures := w.failures ++ failures
          chunks := w.chunks + 1 }, []), cells)

theorem advanceTraced_value (chunkSize : Option Nat) (w : Checking) :
    (advanceTraced chunkSize w).1 = advance chunkSize w := by
  cases chunkSize with
  | none => rfl
  | some size =>
      simp only [advanceTraced, advance, advanceBy, ← checkTraced_value]
      split
      · rfl
      · cases (checkTraced w.check (w.pending.take size)).1 <;> rfl

/-- The cells that a turn of a column puts to its check. -/
def cellsPut (o : PassOptions) (rows : List Row) (s : Session) : ColumnRun → List Entry
  | .waiting c =>
    match configureIn o rows s c with
    | .ok (.check check) => (advanceTraced o.chunkSize (firstChecking rows c check)).2
    | _ => []
  | .checking w => (advanceTraced o.chunkSize w).2
  | _ => []

/-- A step puts the next cells to the check, unless the column fails. -/
theorem advance_cells (chunkSize : Option Nat) (w : Checking) :
    (∃ f, (advance chunkSize w).1 = .failed f) ∨
      (w.pending = [] ∧ (advanceTraced chunkSize w).2 = [] ∧
        (advance chunkSize w).1 = .ended (outcome w)) ∨
      ∃ w', (advance chunkSize w).1 = .checking w' ∧
        (advanceTraced chunkSize w).2 ++ w'.pending = w.pending := by
  rw [← advanceTraced_value]
  cases chunkSize with
  | none => exact Or.inl ⟨.wrongKind, rfl⟩
  | some size =>
      simp only [advanceTraced]
      split
      next he => exact Or.inr (Or.inl ⟨List.isEmpty_iff.mp he, rfl, rfl⟩)
      next =>
        have hvalue := checkTraced_value w.check (w.pending.take size)
        cases hc : checkChunk w.check (w.pending.take size) with
        | error f =>
            rw [hc] at hvalue
            simp only [hvalue]
            exact Or.inl ⟨f, rfl⟩
        | ok found =>
            have hcells := checkTraced_cells hc
            rw [hc] at hvalue
            simp only [hvalue, hcells]
            exact Or.inr (Or.inr ⟨_, rfl, List.take_append_drop _ _⟩)

/-- A column is on its way to what it comes to in a session, and has put so many cells to its
check. -/
def OnWay (o : PassOptions) (rows : List Row) (s : Session) (c : Column) (seen : List Entry) :
    ColumnRun → Prop
  | waiting d => d = c ∧ seen = []
  | checking w => finish o.chunkSize w = comesTo o rows s c ∧
      seen ++ w.pending = entries c.id rows
  | ended out => comesTo o rows s c = .ok out ∧
      (out.stat.status = .validated → seen = entries c.id rows)
  | failed f => comesTo o rows s c = .error f

theorem onWay_advance (hz : o.chunkSize ≠ some 0) {seen : List Entry}
    (hw : finish o.chunkSize w = comesTo o rows s c)
    (hseen : seen ++ w.pending = entries c.id rows) :
    OnWay o rows s c (seen ++ (advanceTraced o.chunkSize w).2) (advance o.chunkSize w).1 := by
  obtain ⟨out, hr, ho⟩ | ⟨f, hr, ho⟩ | ⟨w', hr, ho, -⟩ := advance_cases hz w
  · rw [hr]
    refine ⟨hw.symm.trans ho, fun _ => ?_⟩
    obtain ⟨f, hf⟩ | ⟨hp, hcells, -⟩ | ⟨w', hw', -⟩ :=
      advance_cells o.chunkSize w
    · rw [hr] at hf
      cases hf
    · rw [hcells, ← hp]
      exact hseen
    · rw [hr] at hw'
      cases hw'
  · rw [hr]
    exact hw.symm.trans ho
  · rw [hr]
    refine ⟨ho.trans hw, ?_⟩
    obtain ⟨f, hf⟩ | ⟨-, -, hend⟩ | ⟨w'', hw'', hcells⟩ :=
      advance_cells o.chunkSize w
    · rw [hr] at hf
      cases hf
    · rw [hr] at hend
      cases hend
    · rw [hr] at hw''
      cases hw''
      rw [List.append_assoc, hcells]
      exact hseen

/-- A turn leads a column on. -/
theorem onWay_turn (hz : o.chunkSize ≠ some 0) {seen : List Entry}
    (hkept : ∀ d, r = .waiting d → s'.check? c.id = s.check? c.id)
    (hr : OnWay o rows s c seen r) :
    OnWay o rows s c (seen ++ cellsPut o rows s' r) (r.turn o rows s').run := by
  cases r with
  | waiting d =>
      obtain ⟨rfl, rfl⟩ := hr
      have hconf : configureIn o rows s' d = configureIn o rows s d :=
        configureIn_congr (hkept d rfl)
      rw [turn, begin_run, hconf, cellsPut, hconf, List.nil_append]
      cases hc : configureIn o rows s d with
      | error f => simp [OnWay, comesTo, hc]
      | ok made =>
          cases made with
          | noRule => simp [OnWay, unchecked, comesTo, hc]
          | issue i => simp [OnWay, unchecked, comesTo, hc]
          | check check =>
              have hw : finish o.chunkSize (firstChecking rows d check) = comesTo o rows s d := by
                simp only [comesTo, hc]
              have hseen : [] ++ (firstChecking rows d check).pending = entries d.id rows := rfl
              exact onWay_advance hz hw hseen
  | checking w => exact onWay_advance hz hr.1 hr.2
  | ended out => simpa [cellsPut, turn] using hr
  | failed f => simpa [cellsPut, turn] using hr

end ColumnRun

namespace Pass

open ColumnRun

variable {p : Pass}

/-- A pass under way with its session, and the cells that were put to checks so far, each with the
place of its column. -/
structure Turns where
  pass : Pass
  session : Session
  checked : List (Nat × Entry)

/-- The cells that a turn of the column at a place puts to its check. -/
def cellsAt (p : Pass) (s : Session) (i : Nat) : List Entry :=
  (p.runs[i]?).elim [] (cellsPut p.options p.rows s)

theorem cellsAt_of_closed (h : PassSchedule.isOpenAt p i = false) : p.cellsAt s i = [] := by
  simp only [PassSchedule.isOpenAt] at h
  cases hr : p.runs[i]? with
  | none => simp [cellsAt, hr]
  | some r =>
      rw [hr] at h
      cases r <;> simp_all [cellsAt, cellsPut, isOpen]

namespace Turns

/-- The column at a place has a turn. -/
def next (t : Turns) (i : Nat) : Turns :=
  let turn := t.pass.turn t.session i
  ⟨turn.pass, turn.session, t.checked ++ (t.pass.cellsAt t.session i).map (i, ·)⟩

/-- The cells of the column at a place that were put to its check. -/
def cellsOf (t : Turns) (i : Nat) : List Entry :=
  (t.checked.filter (·.1 = i)).map (·.2)

/-- No column has turns left. -/
def Settled (t : Turns) : Prop :=
  ∀ r ∈ t.pass.runs, r.isOpen = false

theorem cellsOf_next (t : Turns) (i j : Nat) :
    (t.next i).cellsOf j =
      t.cellsOf j ++ if i = j then t.pass.cellsAt t.session i else [] := by
  simp only [cellsOf, next, List.filter_append, List.map_append]
  congr 1
  split
  next h => simp [h, List.filter_map, Function.comp_def]
  next h => simp [h, List.filter_map, Function.comp_def]

end Turns

/-- A pass whose columns have turns at places, one after the other. -/
def turns (p : Pass) (s : Session) (is : List Nat) : Turns :=
  is.foldl Turns.next ⟨p, s, []⟩

theorem turns_concat (p : Pass) (s : Session) (is : List Nat) (i : Nat) :
    p.turns s (is ++ [i]) = (p.turns s is).next i := by
  simp [turns]

/-! ### The columns that ended -/

/-- The columns that ended are announced, each once. -/
structure Announced (p : Pass) : Prop where
  once : p.order.Nodup
  ended_iff : ∀ i, i ∈ p.order ↔ (p.runs[i]?).any hasEnded = true

theorem announced_start (o : PassOptions) (rows : List Row) (columns : List Column) :
    (start o rows columns).Announced where
  once := List.nodup_nil
  ended_iff i := by
    simp only [start, List.not_mem_nil, List.getElem?_map, false_iff]
    cases columns[i]? <;> simp [hasEnded]

theorem Announced.turn (h : Announced p) (s : Session) (i : Nat) :
    Announced (p.turn s i).pass := by
  simp only [Pass.turn]
  cases hr : p.runs[i]? with
  | none => exact h
  | some r =>
      dsimp only
      split
      next ho =>
        have hlt : i < p.runs.length := (List.getElem?_eq_some_iff.mp hr).1
        have hnot : i ∉ p.order := by
          rw [h.ended_iff, hr]
          cases r <;> simp_all [hasEnded, isOpen]
        refine ⟨?_, fun j => ?_⟩
        · split
          · rw [List.nodup_append]
            refine ⟨h.once, by simp, fun a ha b hb => ?_⟩
            rintro rfl
            exact hnot (List.mem_singleton.mp hb ▸ ha)
          · exact h.once
        · by_cases hij : i = j
          · subst hij
            simp only [List.getElem?_set_self hlt, Option.any_some]
            split <;> simp_all
          · rw [List.getElem?_set_ne hij, ← h.ended_iff]
            split <;> simp [Ne.symm hij]
      next => exact h

/-! ### Columns on their way -/

/-- Every column of a pass is on its way to what a session made of it, and the session has still
the same for the columns that wait. -/
structure OnTrack (o : PassOptions) (rows : List Row) (columns : List Column) (s : Session)
    (t : Turns) : Prop where
  sameOptions : t.pass.options = o
  sameRows : t.pass.rows = rows
  length : t.pass.runs.length = columns.length
  leads : ∀ (i : Nat) c r, columns[i]? = some c → t.pass.runs[i]? = some r →
    OnWay o rows s c (t.cellsOf i) r
  kept : ∀ (i : Nat) c, columns[i]? = some c → t.pass.runs[i]? = some (.waiting c) →
    t.session.check? c.id = s.check? c.id
  announced : t.pass.Announced

variable {t : Turns}

theorem onTrack_start (o : PassOptions) (rows : List Row) (columns : List Column) (s : Session) :
    OnTrack o rows columns s ⟨start o rows columns, s, []⟩ where
  sameOptions := rfl
  sameRows := rfl
  length := by simp [start]
  leads i c r hc hr := by
    simp only [start, List.getElem?_map, hc, Option.map_some, Option.some.injEq] at hr
    rw [← hr]
    exact ⟨rfl, rfl⟩
  kept _ _ _ _ := rfl
  announced := announced_start o rows columns

/-- Columns at different places have different identifiers. -/
theorem id_ne_of_ne (hids : (columns.map (·.id)).Nodup) (hc : columns[i]? = some c)
    (hd : columns[j]? = some d) (hij : i ≠ j) : c.id ≠ d.id := by
  obtain ⟨hi, rfl⟩ := List.getElem?_eq_some_iff.mp hc
  obtain ⟨hj, rfl⟩ := List.getElem?_eq_some_iff.mp hd
  have hpairs := List.pairwise_iff_getElem.mp (List.pairwise_map.mp hids)
  obtain hlt | hlt := Nat.lt_or_gt_of_ne hij
  · exact hpairs i j hi hj hlt
  · exact (hpairs j i hj hi hlt).symm

/-- A turn of any column keeps all of them on their way. -/
theorem OnTrack.next (hz : o.chunkSize ≠ some 0) (hids : (columns.map (·.id)).Nodup)
    (h : OnTrack o rows columns s t) (i : Nat) : OnTrack o rows columns s (t.next i) := by
  have hannounced := h.announced.turn t.session i
  obtain ⟨hp, hs, hclosed⟩ | ⟨r, hr, ho, hruns, hrows, hopt, hs⟩ := turn_cases t.pass t.session i
  · have hnext : t.next i = t := by
      rw [Turns.next, hp, hs, cellsAt_of_closed hclosed, List.map_nil, List.append_nil]
    rw [hnext]
    exact h
  · have hlt : i < columns.length := by
      rw [← h.length]
      exact (List.getElem?_eq_some_iff.mp hr).1
    have hat : columns[i]? = some columns[i] := List.getElem?_eq_getElem hlt
    have hcells : t.pass.cellsAt t.session i = cellsPut o rows t.session r := by
      rw [cellsAt, hr, h.sameOptions, h.sameRows]
      rfl
    have hwaiting : ∀ d, r = .waiting d → d = columns[i] := by
      rintro d rfl
      exact (h.leads i _ _ hat hr).1
    have hturn := onWay_turn hz
      (fun d hd => h.kept i columns[i] hat (by rw [hr, hd, hwaiting d hd]))
      (h.leads i _ r hat hr)
    rw [h.sameOptions, h.sameRows] at hruns hs
    have hself : (t.next i).pass.runs[i]? = some (r.turn o rows t.session).run := by
      rw [Turns.next, hruns, List.getElem?_set_self (by rw [h.length]; exact hlt)]
    have hothers : ∀ j, i ≠ j → (t.next i).pass.runs[j]? = t.pass.runs[j]? := fun j hij =>
      turn_getElem?_of_ne (Ne.symm hij) t.pass t.session
    refine ⟨hopt.trans h.sameOptions, hrows.trans h.sameRows, ?_, ?_, ?_, hannounced⟩
    · exact (congrArg List.length hruns).trans (by rw [List.length_set, h.length])
    · intro j c r' hc hr'
      rw [Turns.cellsOf_next, hcells]
      by_cases hij : i = j
      · subst hij
        obtain rfl := Option.some.inj (hself.symm.trans hr')
        obtain rfl := Option.some.inj (hat.symm.trans hc)
        rw [if_pos rfl]
        exact hturn
      · rw [hothers j hij] at hr'
        rw [if_neg hij, List.append_nil]
        exact h.leads j c r' hc hr'
    · intro j c hc hr'
      by_cases hij : i = j
      · -- after its turn a column does not wait
        subst hij
        exact absurd (Option.some.inj (hself.symm.trans hr')) (turn_ne_waiting ho c)
      · rw [hothers j hij] at hr'
        rw [Turns.next, hs, turn_check?_of_ne fun d hd => ?_, h.kept j c hc hr']
        rw [hwaiting d hd]
        exact id_ne_of_ne hids hc hat (Ne.symm hij)

end Pass

end TableAudit
