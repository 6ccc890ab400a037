import TableAudit.Pass.Column
import TableAudit.Proofs.Fault

/-!
# What a column comes to

The rows of a column are checked in chunks, but where the chunks begin makes no difference to what
is found. So what a column comes to can be said without its turns: `ColumnRun.alone`. Every turn of
a column leads on to that, and brings its end nearer. The only thing that columns share is the
session, which may hand a column the check that was made for another one of the same identifier.
-/

namespace TableAudit

namespace RuleConfig

/-- Whether a description carries a rule with a text. -/
def carries (description : Value) (source : String) : Bool :=
  match ofDescription description with
  | .ok (found rule _) => rule == source
  | _ => false

theorem found_of_carries {description : Value} {source : String}
    (h : carries description source = true) :
    ∃ extra, ofDescription description = .ok (.found source extra) := by
  rw [carries] at h
  split at h
  next rule extra hd => exact ⟨extra, by rw [hd, eq_of_beq h]⟩
  next => cases h

end RuleConfig

namespace ColumnRun

variable {o : PassOptions} {rows : List Row} {s : Session} {c : Column} {r : ColumnRun}
variable {names : String → List String}

theorem checkChunk_append (check : Check) (xs ys : List Entry) :
    checkChunk check (xs ++ ys) = (do
      let found ← checkChunk check xs
      let more ← checkChunk check ys
      .ok (found ++ more)) := by
  induction xs with
  | nil =>
      simp only [checkChunk, List.nil_append]
      cases checkChunk check ys <;> rfl
  | cons e xs ih =>
      simp only [List.cons_append, checkChunk, ih]
      cases check.run (.text e.text) with
      | error f => rfl
      | ok errors =>
          cases checkChunk check xs with
          | error f => rfl
          | ok found =>
              cases checkChunk check ys with
              | error f => rfl
              | ok more =>
                  simp only [bind, Except.bind]
                  split <;> rfl

/-- The failures of a chunk are those of the later cells, behind that of the first one if something is
wrong with it. -/
theorem checkChunk_cons_iff {check : Check} {e : Entry} {es : List Entry} {fs : List Failure} :
    checkChunk check (e :: es) = .ok fs ↔ ∃ errors, check.run (.text e.text) = .ok errors ∧
      ∃ rest, checkChunk check es = .ok rest ∧ fs = if errors.isEmpty then rest
        else ⟨e.rowNumber, e.recordId, e.text, errors⟩ :: rest := by
  rw [checkChunk, bind_ok_iff]
  refine exists_congr fun errors => and_congr_right fun _ => ?_
  rw [bind_ok_iff]
  refine exists_congr fun rest => and_congr_right fun _ => ?_
  rw [Except.ok.injEq]
  exact eq_comm

/-- A chunk can be checked if every cell in it can. -/
theorem checkChunk_ok_iff {check : Check} {es : List Entry} :
    (∃ fs, checkChunk check es = .ok fs) ↔
      ∀ e ∈ es, ∃ errors, check.run (.text e.text) = .ok errors := by
  induction es with
  | nil => simp [checkChunk]
  | cons e es ih =>
      rw [List.forall_mem_cons, ← ih]
      constructor
      · rintro ⟨fs, h⟩
        obtain ⟨errors, hr, rest, hrest, -⟩ := checkChunk_cons_iff.mp h
        exact ⟨⟨errors, hr⟩, rest, hrest⟩
      · rintro ⟨⟨errors, hr⟩, rest, hrest⟩
        exact ⟨_, checkChunk_cons_iff.mpr ⟨errors, hr, rest, hrest, rfl⟩⟩

/-- The failures of a chunk are those of its cells with which something is wrong, in order. -/
theorem checkChunk_failures {check : Check} {es : List Entry} {fs : List Failure}
    (h : checkChunk check es = .ok fs) :
    (fs.map (·.rowNumber)).Sublist (es.map (·.rowNumber)) ∧
      ∀ f, f ∈ fs ↔ ∃ e ∈ es, ∃ errors, check.run (.text e.text) = .ok errors ∧ errors ≠ [] ∧
        f = ⟨e.rowNumber, e.recordId, e.text, errors⟩ := by
  induction es generalizing fs with
  | nil =>
      cases h
      simp
  | cons e es ih =>
      obtain ⟨errors, hr, rest, hrest, rfl⟩ := checkChunk_cons_iff.mp h
      obtain ⟨hs, hm⟩ := ih hrest
      split
      next he =>
        refine ⟨hs.trans (List.sublist_cons_self _ _), fun f => ?_⟩
        simp [hm, hr, List.isEmpty_iff.mp he]
      next he =>
        refine ⟨hs.cons_cons _, fun f => ?_⟩
        have hne : errors ≠ [] := by simpa using he
        simp [hm, hr, hne]

/-- How many chunks so many rows make. -/
def chunkCount (size rows : Nat) : Nat :=
  (rows + size - 1) / size

theorem chunkCount_zero {size : Nat} (h : 0 < size) : chunkCount size 0 = 0 := by
  rw [chunkCount, Nat.div_eq_zero_iff]
  omega

theorem chunkCount_step {size n : Nat} (h : 0 < size) (hn : 0 < n) :
    chunkCount size n = chunkCount size (n - size) + 1 := by
  simp only [chunkCount]
  by_cases hle : size ≤ n
  · have hl : n + size - 1 = (n - size + size - 1) + size := by omega
    rw [hl, Nat.add_div_right _ h]
  · have hz : n - size + size - 1 = size - 1 := by omega
    have hl : n + size - 1 = (n - 1) + size := by omega
    rw [hz, hl, Nat.add_div_right _ h, Nat.div_eq_of_lt (by omega), Nat.div_eq_of_lt (by omega)]

/-- What the rows that are still to be checked bring a column to. -/
def finish (chunkSize : Option Nat) (w : Checking) : Except Fault ColumnOutcome :=
  match chunkSize with
  | none => .error .wrongKind
  | some size => do
    let failures ← checkChunk w.check w.pending
    .ok (outcome { w with
      failures := w.failures ++ failures
      chunks := w.chunks + chunkCount size w.pending.length })

theorem finish_ok_iff {size : Nat} {w : Checking} {out : ColumnOutcome} :
    finish (some size) w = .ok out ↔ ∃ failures, checkChunk w.check w.pending = .ok failures ∧
      out = outcome { w with
        failures := w.failures ++ failures
        chunks := w.chunks + chunkCount size w.pending.length } := by
  simp only [finish]
  cases checkChunk w.check w.pending with
  | error f => simp [bind, Except.bind]
  | ok failures => simp [bind, Except.bind, eq_comm]

/-- A turn ends a column as its remaining rows would, or leaves it on the way there with fewer of
them. -/
theorem advance_cases {chunkSize : Option Nat} (hz : chunkSize ≠ some 0) (w : Checking) :
    (∃ out, (advance chunkSize w).1 = .ended out ∧ finish chunkSize w = .ok out) ∨
      (∃ f, (advance chunkSize w).1 = .failed f ∧ finish chunkSize w = .error f) ∨
        ∃ w', (advance chunkSize w).1 = .checking w' ∧
          finish chunkSize w' = finish chunkSize w ∧ w'.pending.length < w.pending.length := by
  match chunkSize with
  | none => exact Or.inr (Or.inl ⟨.wrongKind, rfl, rfl⟩)
  | some size =>
      have hpos : 0 < size := by
        apply Nat.pos_of_ne_zero
        rintro rfl
        exact hz rfl
      simp only [advance, advanceBy]
      split
      next he =>
        have hp : w.pending = [] := List.isEmpty_iff.mp he
        refine Or.inl ⟨outcome w, rfl, ?_⟩
        simp [finish, hp, checkChunk, chunkCount_zero hpos, bind, Except.bind, outcome]
      next he =>
        have hlen : 0 < w.pending.length := by
          rw [List.length_pos_iff]
          simpa using he
        have hsplit : checkChunk w.check w.pending = (do
            let found ← checkChunk w.check (w.pending.take size)
            let more ← checkChunk w.check (w.pending.drop size)
            .ok (found ++ more)) := by
          rw [← checkChunk_append, List.take_append_drop]
        cases hc : checkChunk w.check (w.pending.take size) with
        | error f =>
            refine Or.inr (Or.inl ⟨f, rfl, ?_⟩)
            simp [finish, hsplit, hc, bind, Except.bind]
        | ok found =>
            refine Or.inr (Or.inr ⟨_, rfl, ?_, ?_⟩)
            · have hcount := chunkCount_step hpos hlen
              simp only [finish, hsplit, hc, List.length_drop, bind, Except.bind]
              cases checkChunk w.check (w.pending.drop size) with
              | error f => rfl
              | ok more =>
                  simp only [outcome, List.append_assoc, Except.ok.injEq]
                  rw [hcount, Nat.add_assoc, Nat.add_comm 1]
            · simp only [List.length_drop]
              omega

theorem entries_texts (id : String) (rows : List Row) :
    (entries id rows).map (·.text) = rows.map (·.text id) := by
  calc
    (entries id rows).map (·.text) = ((rows.zipIdx 1).map Prod.fst).map (·.text id) := by
      simp only [entries, List.map_map]
      rfl
    _ = rows.map (·.text id) := by rw [List.zipIdx_map_fst]

theorem entries_numbers (id : String) (rows : List Row) :
    (entries id rows).map (·.rowNumber) = List.range' 1 rows.length := by
  simp only [entries, List.map_map, Function.comp_def]
  exact List.zipIdx_map_snd 1 rows

/-- The values of a column's cells. -/
def cellValues (columnId : String) (rows : List Row) : List Value :=
  (entries columnId rows).map fun e => Value.text e.text

/-- A column before its first chunk. -/
def firstChecking (rows : List Row) (c : Column) (check : Check) : Checking :=
  let cells := entries c.id rows
  ⟨c.name, check, ValueIndex.ofTexts (cells.map (·.text)), cells.length, cells, [], 0⟩

/-- What a column comes to, if its check was made under a name. -/
def alone (o : PassOptions) (rows : List Row) (field : String) (c : Column) :
    Except Fault ColumnOutcome :=
  match RuleConfig.ofDescription c.description with
  | .error f => .error f
  | .ok .absent => .ok ⟨⟨c.name, .noRule, 0, 0, 0⟩, none, []⟩
  | .ok (.broken _ m) =>
    .ok ⟨⟨c.name, .failed, 0, 0, 0⟩, none,
      [⟨c.name, .brokenJson, RuleConfig.brokenText c.name m⟩]⟩
  | .ok (.found rule _) =>
    match Check.compile rule (cellValues c.id rows) field o.messages o.now with
    | .error (.mistake m) =>
      .ok ⟨⟨c.name, .failed, 0, 0, 0⟩, none, [⟨c.name, .badRule, badRuleText c.name m⟩]⟩
    | .error (.fault f) => .error f
    | .ok check => finish o.chunkSize (firstChecking rows c check)

/-- Every check that is kept was made from its rule and its texts, under one of the names that go
with its identifier. -/
def Faithful (o : PassOptions) (names : String → List String) (s : Session) : Prop :=
  ∀ id cached, s.check? id = some cached →
    ∃ texts : List String, cached.marks = some (texts.map Mark.text) ∧ ∃ field ∈ names id,
      Check.compile cached.rule (texts.map Value.text) field o.messages o.now = .ok cached.check

/-- A column is on its way to what it comes to under one of its names. -/
def LeadsTo (o : PassOptions) (rows : List Row) (names : String → List String) (c : Column) :
    ColumnRun → Prop
  | waiting d => d = c
  | checking w => ∃ field ∈ names c.id, finish o.chunkSize w = alone o rows field c
  | ended out => ∃ field ∈ names c.id, alone o rows field c = .ok out
  | failed f => ∃ field ∈ names c.id, alone o rows field c = .error f

/-- How many turns a column has at most. -/
def turnsLeft (rows : List Row) : ColumnRun → Nat
  | waiting _ => rows.length + 1
  | checking w => w.pending.length + 1
  | _ => 0

theorem faithful_fresh (o : PassOptions) (names : String → List String) :
    Faithful o names Session.fresh := by
  intro id cached h
  simp [Session.check?, Session.fresh] at h

theorem leadsTo_advance (hz : o.chunkSize ≠ some 0) {w : Checking} {field : String}
    (hf : field ∈ names c.id) (hw : finish o.chunkSize w = alone o rows field c) :
    LeadsTo o rows names c (advance o.chunkSize w).1 := by
  obtain ⟨out, hr, ho⟩ | ⟨f, hr, ho⟩ | ⟨w', hr, ho, -⟩ := advance_cases hz w
  · rw [hr]
    exact ⟨field, hf, hw.symm.trans ho⟩
  · rw [hr]
    exact ⟨field, hf, hw.symm.trans ho⟩
  · rw [hr]
    exact ⟨field, hf, ho.trans hw⟩

theorem turnsLeft_advance {chunkSize : Option Nat} (hz : chunkSize ≠ some 0) (rows : List Row)
    (w : Checking) :
    turnsLeft rows (advance chunkSize w).1 ≤ w.pending.length := by
  obtain ⟨out, hr, -⟩ | ⟨f, hr, -⟩ | ⟨w', hr, -, hlt⟩ := advance_cases hz w
  · simp [hr, turnsLeft]
  · simp [hr, turnsLeft]
  · rw [hr]
    exact hlt

theorem marks_ofValue (id : String) (rows : List Row) :
    (cellValues id rows).map Mark.ofValue =
      ((entries id rows).map (·.text)).map Mark.text := by
  simp [cellValues, Mark.ofValue]

theorem cellValues_eq (id : String) (rows : List Row) :
    cellValues id rows = ((entries id rows).map (·.text)).map Value.text := by
  simp [cellValues]

theorem lookup_filter_ne {κ α : Type} [BEq κ] [LawfulBEq κ] [DecidableEq κ] {k k' : κ}
    (h : k' ≠ k) (xs : List (κ × α)) : (xs.filter (·.1 ≠ k)).lookup k' = xs.lookup k' := by
  induction xs with
  | nil => rfl
  | cons x xs ih =>
      obtain ⟨key, v⟩ := x
      by_cases hx : key = k
      · subst hx
        have hb : (k' == key) = false := beq_false_of_ne h
        rw [List.filter_cons_of_neg (by simp), ih, List.lookup_cons, hb]
      · rw [List.filter_cons_of_pos (by simpa using hx), List.lookup_cons, List.lookup_cons, ih]

theorem keepCheck_check? (s : Session) (id id' : String) (cached : CachedCheck) :
    (s.keepCheck s.generation id cached).check? id' =
      if id' = id then some cached else s.check? id' := by
  simp only [Session.keepCheck, if_true, Session.check?, List.lookup_cons]
  by_cases h : id' = id
  · simp [h]
  · have hb : (id' == id) = false := beq_false_of_ne h
    rw [hb, if_neg h]
    exact lookup_filter_ne h s.checks

/-- A kept check that matches was made from the rule and the texts, under a name that goes with the
identifier. -/
theorem made_of_matching (hs : Faithful o names s) {rule : String} {cached : CachedCheck}
    (hm : s.matching? c.id rule (some ((cellValues c.id rows).map Mark.ofValue)) = some cached) :
    ∃ field ∈ names c.id,
      Check.compile rule (cellValues c.id rows) field o.messages o.now = .ok cached.check := by
  simp only [Session.matching?, Option.filter_eq_some_iff, Bool.and_eq_true,
    decide_eq_true_eq] at hm
  obtain ⟨hk, hrule, hmarks⟩ := hm
  obtain ⟨texts, ht, field, hf, hcompile⟩ := hs c.id cached hk
  have htexts : texts = (entries c.id rows).map (·.text) := by
    rw [marks_ofValue, ht, Option.some.injEq] at hmarks
    exact (List.map_inj_right fun a b h => Mark.text.inj h).mp hmarks
  rw [hrule, htexts, ← cellValues_eq] at hcompile
  exact ⟨field, hf, hcompile⟩

/-- A session stays faithful when it keeps a check that was made from its rule and its texts. -/
theorem faithful_keepCheck (hs : Faithful o names s) (hc : c.name ∈ names c.id)
    (cached : CachedCheck) (hmarks : cached.marks = some ((cellValues c.id rows).map Mark.ofValue))
    (hk : Check.compile cached.rule (cellValues c.id rows) c.name o.messages o.now =
      .ok cached.check) (n : Nat) :
    Faithful o names ({ s with made := n }.keepCheck s.generation c.id cached) := by
  intro id kept h
  rw [show s.generation = { s with made := n }.generation from rfl, keepCheck_check?] at h
  split at h
  next hid =>
    obtain rfl := Option.some.inj h
    refine ⟨_, by rw [hmarks, marks_ofValue], c.name, by rwa [hid], ?_⟩
    rw [← cellValues_eq]
    exact hk
  next => exact hs id kept h

/-- The check that a session hands out was made from the rule and the texts, under a name that goes
with the identifier; and a session that hands it out stays faithful. -/
theorem checkFor_faithful (hs : Faithful o names s) (hc : c.name ∈ names c.id) (rows : List Row)
    (rule : String) :
    let make := Check.compile rule (cellValues c.id rows) c.name o.messages o.now
    let result := s.checkFor c.id rule (some ((cellValues c.id rows).map Mark.ofValue)) make
    Faithful o names result.2 ∧
      ((∃ e, make = .error e ∧ result.1 = .error e) ∨
        ∃ obtained, result.1 = .ok obtained ∧ ∃ field ∈ names c.id,
          Check.compile rule (cellValues c.id rows) field o.messages o.now =
            .ok obtained.cached.check) := by
  intro make result
  cases hm : s.matching? c.id rule (some ((cellValues c.id rows).map Mark.ofValue)) with
  | some cached =>
      have hr : result = (.ok ⟨cached, false⟩, s) := by
        simp only [result, Session.checkFor, Session.checkAcross, hm]
      rw [hr]
      exact ⟨hs, Or.inr ⟨_, rfl, made_of_matching hs hm⟩⟩
  | none =>
      cases hk : make with
      | error e =>
          have hr : result = (.error e, s) := by
            simp only [result, Session.checkFor, Session.checkAcross, hm, hk, id]
          rw [hr]
          exact ⟨hs, Or.inl ⟨e, rfl, rfl⟩⟩
      | ok check =>
          let cached : CachedCheck :=
            ⟨rule, some ((cellValues c.id rows).map Mark.ofValue), check, s.made⟩
          have hr : result = (.ok ⟨cached, true⟩,
              { s with made := s.made + 1 }.keepCheck s.generation c.id cached) := by
            simp only [result, Session.checkFor, Session.checkAcross, hm, hk, id, cached]
          rw [hr]
          exact ⟨faithful_keepCheck hs hc cached rfl hk _, Or.inr ⟨_, rfl, c.name, hc, hk⟩⟩

/-- The first turn of a column sets it on its way. -/
theorem begin_leadsTo (hz : o.chunkSize ≠ some 0) (hs : Faithful o names s)
    (hc : c.name ∈ names c.id) (rows : List Row) :
    Faithful o names (begin o rows s c).session ∧ LeadsTo o rows names c (begin o rows s c).run ∧
      turnsLeft rows (begin o rows s c).run ≤ rows.length := by
  simp only [begin]
  cases hd : RuleConfig.ofDescription c.description with
  | error f => exact ⟨hs, ⟨c.name, hc, by simp [alone, hd]⟩, Nat.zero_le _⟩
  | ok config =>
      cases config with
      | absent => exact ⟨hs, ⟨c.name, hc, by simp [alone, hd]⟩, Nat.zero_le _⟩
      | broken text m => exact ⟨hs, ⟨c.name, hc, by simp [alone, hd]⟩, Nat.zero_le _⟩
      | found rule extra =>
          obtain ⟨hs', hr⟩ := checkFor_faithful hs hc rows rule
          simp only [beginRule]
          rw [← cellValues]
          obtain ⟨e, hm, hr⟩ | ⟨obtained, hr, field, hf, hm⟩ := hr
          · rw [hr]
            cases e with
            | mistake m => exact ⟨hs', ⟨c.name, hc, by simp [alone, hd, hm]⟩, Nat.zero_le _⟩
            | fault f => exact ⟨hs', ⟨c.name, hc, by simp [alone, hd, hm]⟩, Nat.zero_le _⟩
          · rw [hr]
            refine ⟨hs', leadsTo_advance hz hf (w := firstChecking rows c obtained.cached.check) ?_,
              ?_⟩
            · simp [alone, hd, hm]
            · have hle := turnsLeft_advance hz rows
                (firstChecking rows c obtained.cached.check)
              simpa [firstChecking, entries] using hle

/-- A turn leads a column on to what it comes to, and is one of those that it has left. -/
theorem turn_leadsTo (hz : o.chunkSize ≠ some 0) (hs : Faithful o names s)
    (hc : c.name ∈ names c.id) (hr : LeadsTo o rows names c r) :
    Faithful o names (r.turn o rows s).session ∧ LeadsTo o rows names c (r.turn o rows s).run ∧
      (r.isOpen = true → turnsLeft rows (r.turn o rows s).run < turnsLeft rows r) := by
  cases r with
  | waiting d =>
      obtain rfl : d = c := hr
      obtain ⟨hs', hl, hle⟩ := begin_leadsTo hz hs hc rows
      exact ⟨hs', hl, fun _ => Nat.lt_succ_of_le hle⟩
  | checking w =>
      obtain ⟨field, hf, hw⟩ := hr
      refine ⟨hs, leadsTo_advance hz hf hw, fun _ => ?_⟩
      exact Nat.lt_succ_of_le (turnsLeft_advance hz rows w)
  | ended out => exact ⟨hs, hr, by simp [isOpen]⟩
  | failed f => exact ⟨hs, hr, by simp [isOpen]⟩

end ColumnRun

end TableAudit
