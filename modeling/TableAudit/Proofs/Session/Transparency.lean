import TableAudit.Proofs.Pass.Exactness

/-!
# Sessions that are kept

Calls on one session share the checks that are made. A check is handed out again for a column of
the same identifier, rule and texts, and it mentions the name of the column that it was made for.
So a pass reports what it would report in a fresh session, but for the wording of problems; and it
reports exactly that if no column was validated under another name since the session was
invalidated last.
-/

namespace TableAudit

variable {o : PassOptions} {rows : List Row} {s s' : Session} {c d : Column}
variable {columns : List Column} {check : Check} {names names' : String → List String}
variable {source ts : String} {size : Nat}

/-- Two ways to make lists of the members of a list, the same in length, make the same of all of
them together exactly if they make the same of each. -/
theorem flatMap_eq_iff {α β : Type} {f g : α → List β} {as : List α}
    (hlength : ∀ a ∈ as, (f a).length = (g a).length) :
    as.flatMap f = as.flatMap g ↔ ∀ a ∈ as, f a = g a := by
  induction as with
  | nil => simp
  | cons a as ih =>
      rw [List.forall_mem_cons] at hlength
      rw [List.flatMap_cons, List.flatMap_cons, List.forall_mem_cons, ← ih hlength.2]
      constructor
      · intro h
        exact List.append_inj h hlength.1
      · rintro ⟨hhead, htail⟩
        rw [hhead, htail]

/-- Two relations from the members of a list onto others relate the others. -/
theorem forall₂_of_forall₂ {α β γ : Type} {R : α → β → Prop} {S : α → γ → Prop} {T : β → γ → Prop}
    {as : List α} {bs : List β} {cs : List γ} (h : List.Forall₂ R as bs)
    (h' : List.Forall₂ S as cs) (hT : ∀ a b c, R a b → S a c → T b c) :
    List.Forall₂ T bs cs := by
  induction h generalizing cs with
  | nil =>
      cases h'
      exact .nil
  | cons hab _ ih =>
      cases h' with
      | cons hac htail => exact .cons (hT _ _ _ hab hac) (ih htail)

namespace ColumnRun

/-! ### Sessions with the same checks -/

/-- Two sessions have the same checks for columns and rows. -/
def Alike (o : PassOptions) (rows : List Row) (columns : List Column) (s s' : Session) : Prop :=
  ∀ c ∈ columns, ∀ source, checkIn o rows s c source = checkIn o rows s' c source

theorem Alike.configureIn (h : Alike o rows columns s s') (hc : c ∈ columns) :
    configureIn o rows s c = configureIn o rows s' c := by
  simp only [ColumnRun.configureIn, h c hc]

/-- After a check was gotten it is kept, with its rule and its texts. -/
theorem gotten_kept (h : checkIn o rows s c source = .ok check) :
    ∃ kept, (gotten o rows s c source).check? c.id = some kept ∧ kept.rule = source ∧
      kept.marks = some ((cellValues c.id rows).map Mark.ofValue) ∧ kept.check = check := by
  simp only [checkIn] at h
  simp only [gotten, Session.checkFor, Session.checkAcross]
  cases hm : s.matching? c.id source (some ((cellValues c.id rows).map Mark.ofValue)) with
  | some cached =>
      rw [hm] at h
      simp only [Session.matching?, Option.filter_eq_some_iff, Bool.and_eq_true,
        decide_eq_true_eq] at hm
      exact ⟨cached, hm.1, hm.2.1, hm.2.2, Except.ok.inj h⟩
  | none =>
      rw [hm] at h
      dsimp only at h
      rw [h]
      exact ⟨_, (keepCheck_check? _ c.id c.id _).trans (if_pos rfl), rfl, rfl, rfl⟩

/-- If none can be made, what is kept stays. -/
theorem gotten_refused {e : Rule.Refusal} (h : checkIn o rows s c source = .error e) :
    gotten o rows s c source = s := by
  simp only [checkIn] at h
  simp only [gotten, Session.checkFor, Session.checkAcross]
  cases hm : s.matching? c.id source (some ((cellValues c.id rows).map Mark.ofValue)) with
  | some cached => rfl
  | none =>
      rw [hm] at h
      dsimp only at h
      rw [h]
      rfl

/-- A check that is kept is handed out for its rule and its texts. -/
theorem checkIn_of_kept {kept : CachedCheck} (h : s.check? c.id = some kept) (source : String) :
    checkIn o rows s c source =
      if kept.rule = source ∧ kept.marks = some ((cellValues c.id rows).map Mark.ofValue) then
        .ok kept.check
      else Check.compile source (cellValues c.id rows) c.name o.messages o.now := by
  simp only [checkIn, Session.matching?, h, Option.filter_some]
  by_cases hk : kept.rule = source ∧
      kept.marks = some ((cellValues c.id rows).map Mark.ofValue)
  · simp [hk]
  · simp [hk]

/-- Sessions with the same checks have so after they got the check of a column. -/
theorem Alike.gotten (h : Alike o rows columns s s') (hd : d ∈ columns) (source : String) :
    Alike o rows columns (gotten o rows s d source) (gotten o rows s' d source) := by
  intro c hc source'
  by_cases hid : c.id = d.id
  · cases hk : checkIn o rows s d source with
    | error e =>
        rw [gotten_refused hk, gotten_refused ((h d hd source).symm.trans hk)]
        exact h c hc source'
    | ok check =>
        obtain ⟨kept, hkept, hrule, hmarks, rfl⟩ := gotten_kept hk
        obtain ⟨kept', hkept', hrule', hmarks', hcheck⟩ :=
          gotten_kept ((h d hd source).symm.trans hk)
        rw [← hid] at hkept hkept'
        rw [checkIn_of_kept hkept, checkIn_of_kept hkept', hrule, hrule', hmarks, hmarks', hcheck]
  · have hother (s : Session) : checkIn o rows (ColumnRun.gotten o rows s d source) c source' =
        checkIn o rows s c source' :=
      checkIn_congr (checkFor_check?_of_ne hid source _ _) source'
    rw [hother, hother]
    exact h c hc source'

/-- In sessions with the same checks a turn of a column leads to the same, and they have the same
checks afterwards. -/
theorem Alike.turn {r : ColumnRun} (h : Alike o rows columns s s')
    (hr : ∀ d, r = .waiting d → d ∈ columns) :
    (r.turn o rows s).run = (r.turn o rows s').run ∧
      Alike o rows columns (r.turn o rows s).session (r.turn o rows s').session := by
  cases r with
  | waiting d =>
      have hd := hr d rfl
      refine ⟨?_, ?_⟩
      · rw [ColumnRun.turn, ColumnRun.turn, begin_run, begin_run, h.configureIn hd]
      · simp only [ColumnRun.turn, begin_session]
        split
        · exact h.gotten hd _
        · exact h
  | checking w => exact ⟨rfl, h⟩
  | ended out => exact ⟨rfl, h⟩
  | failed f => exact ⟨rfl, h⟩

end ColumnRun

namespace PassSchedule

open ColumnRun

variable {q : PassSchedule}

/-- A pass is done in a way on rows, and the columns that wait are among some. -/
structure Among (o : PassOptions) (rows : List Row) (columns : List Column) (p : Pass) : Prop where
  sameOptions : p.options = o
  sameRows : p.rows = rows
  waiting : ∀ (i : Nat) c, p.runs[i]? = some (.waiting c) → c ∈ columns

theorem Among.start (o : PassOptions) (rows : List Row) (columns : List Column) :
    Among o rows columns (Pass.start o rows columns) where
  sameOptions := rfl
  sameRows := rfl
  waiting i c hc := by
    simp only [Pass.start, List.getElem?_map, Option.map_eq_some_iff] at hc
    obtain ⟨d, hd, hdc⟩ := hc
    cases hdc
    exact List.mem_of_getElem? hd

theorem Among.turn {p : Pass} (h : Among o rows columns p) (s : Session) (i : Nat) :
    Among o rows columns (p.turn s i).pass := by
  obtain ⟨hp, -⟩ | ⟨r, hr, ho, hruns, hrows, hopt, -⟩ := Pass.turn_cases p s i
  · rw [hp]
    exact h
  · refine ⟨hopt.trans h.sameOptions, hrows.trans h.sameRows, fun j c hc => ?_⟩
    rw [hruns] at hc
    by_cases hij : i = j
    · subst hij
      rw [List.getElem?_set_self (List.getElem?_eq_some_iff.mp hr).1] at hc
      exact absurd (Option.some.inj hc) (turn_ne_waiting ho c)
    · rw [List.getElem?_set_ne hij] at hc
      exact h.waiting j c hc

/-- In sessions with the same checks a turn of a pass leads to the same. -/
theorem turn_alike {p : Pass} (hp : Among o rows columns p) (h : Alike o rows columns s s')
    (i : Nat) :
    (p.turn s' i).pass = (p.turn s i).pass ∧
      Alike o rows columns (p.turn s i).session (p.turn s' i).session := by
  simp only [Pass.turn]
  cases hr : p.runs[i]? with
  | none => exact ⟨rfl, h⟩
  | some r =>
      have hturn := h.turn (r := r) fun d hd => hp.waiting i d (by rw [hr, hd])
      dsimp only
      split
      · rw [hp.sameOptions, hp.sameRows]
        exact ⟨by rw [hturn.1], hturn.2⟩
      · exact ⟨rfl, h⟩

/-- The same pass in another session, with other lines logged. -/
def within (q : PassSchedule) (s : Session) (lines : List Log.Line) : PassSchedule :=
  { q with session := s, lines := lines }

theorem settled_within (q : PassSchedule) (s : Session) (lines : List Log.Line) (i : Nat) :
    (q.within s lines).job (.settled i) = (q.job (.settled i)).within s lines := by
  obtain ⟨pass, session, queue, settled, fault, isOver, logged⟩ := q
  cases fault with
  | some f => rfl
  | none =>
      simp only [job, within]
      cases faultAt? pass i <;> rfl

/-- In a session with the same checks a job leads to the same. -/
theorem job_within (hq : Among o rows columns q.pass) (h : Alike o rows columns q.session s)
    (lines : List Log.Line) (j : PassJob) :
    Among o rows columns (q.job j).pass ∧ ∃ s' lines',
      (q.within s lines).job j = (q.job j).within s' lines' ∧
        Alike o rows columns (q.job j).session s' := by
  cases j with
  | turn i =>
      obtain ⟨hpass, halike⟩ := turn_alike hq h i
      refine ⟨hq.turn q.session i, (q.pass.turn s i).session,
        lines ++ (q.pass.turn s i).lines, ?_, halike⟩
      simp only [job, within, hpass]
  | settled i =>
      obtain ⟨hpass, hsession⟩ := job_settled q i
      exact ⟨hpass ▸ hq, s, lines, settled_within q s lines i, hsession ▸ h⟩
  | «over» => exact ⟨hq, s, lines, rfl, h⟩

theorem runFor_within (fuel : Nat) (hq : Among o rows columns q.pass)
    (h : Alike o rows columns q.session s) (lines : List Log.Line) :
    ∃ s' lines', runFor fuel (q.within s lines) = (runFor fuel q).within s' lines' := by
  induction fuel generalizing q s lines with
  | zero => exact ⟨s, lines, rfl⟩
  | succ fuel ih =>
      simp only [runFor]
      have hover : (q.within s lines).isOver = q.isOver := rfl
      have hqueue : (q.within s lines).queue = q.queue := rfl
      rw [hover, hqueue]
      split
      next => exact ⟨s, lines, rfl⟩
      next =>
        split
        next => exact ⟨s, lines, rfl⟩
        next j rest _ =>
          obtain ⟨hq', s', lines', hjob, halike⟩ :=
            job_within (q := { q with queue := rest }) hq h lines j
          obtain ⟨s'', lines'', hrun⟩ := ih hq' halike lines'
          exact ⟨s'', lines'', (congrArg (runFor fuel) hjob).trans hrun⟩

/-- In a session with the same checks a pass ends the same. -/
theorem result_alike (h : Alike o rows columns s s') (ts : String) :
    (run (Pass.start o rows columns) s').result ts =
      (run (Pass.start o rows columns) s).result ts := by
  have hstart : start (Pass.start o rows columns) s' =
      (start (Pass.start o rows columns) s).within s' [] := rfl
  obtain ⟨s'', lines, hrun⟩ := runFor_within (q := start (Pass.start o rows columns) s)
    (jobBound (Pass.start o rows columns)) (Among.start o rows columns) h []
  rw [run, hstart, hrun]
  rfl

end PassSchedule

/-! ### Calls on a session -/

/-- A call on a session. -/
inductive SessionCall
  /-- It is told that the table changed. -/
  | invalidate
  /-- A pass in chunks of a size over columns. -/
  | validate (size : Nat) (pos : 0 < size) (rows : List Row) (columns : List Column)

namespace SessionCall

/-- The session after a call on it. -/
def after (o : PassOptions) (s : Session) : SessionCall → Session
  | invalidate => s.invalidate
  | validate size _ rows columns =>
    (PassSchedule.run (Pass.start (o.inChunks size) rows columns) s).session

/-- The names of columns by their identifiers after a call. -/
def noted (names : String → List String) : SessionCall → String → List String
  | invalidate => fun _ => []
  | validate _ _ _ columns => fun id =>
    names id ++ (columns.filter (·.id = id)).map (·.name)

end SessionCall

/-- A session after calls on it. -/
def sessionAfter (o : PassOptions) (calls : List SessionCall) : Session :=
  calls.foldl (SessionCall.after o) Session.fresh

/-- The names that the columns of an identifier were validated under since the last
invalidation. -/
def namesSince (calls : List SessionCall) : String → List String :=
  calls.foldl SessionCall.noted fun _ => []

namespace ColumnRun

theorem Faithful.mono (h : Faithful o names s) (hsub : ∀ id, ∀ name ∈ names id, name ∈ names' id) :
    Faithful o names' s := by
  intro id cached hk
  obtain ⟨texts, hmarks, field, hfield, hmade⟩ := h id cached hk
  exact ⟨texts, hmarks, field, hsub id field hfield, hmade⟩

/-- The size of chunks has no part in it. -/
theorem Faithful.inChunks (h : Faithful o names s) : Faithful (o.inChunks size) names s :=
  h

theorem mem_noted (names : String → List String) (hpos : 0 < size) (rows : List Row)
    (hc : c ∈ columns) :
    c.name ∈ (SessionCall.validate size hpos rows columns).noted names c.id := by
  simp only [SessionCall.noted, List.mem_append, List.mem_map, List.mem_filter]
  exact Or.inr ⟨c, ⟨hc, by simp⟩, rfl⟩

theorem faithful_noted (hs : Faithful o names s) (hpos : 0 < size) (rows : List Row)
    (columns : List Column) :
    Faithful (o.inChunks size) ((SessionCall.validate size hpos rows columns).noted names) s :=
  (hs.mono fun _ _ hname => List.mem_append_left _ hname).inChunks

theorem faithful_after (hs : Faithful o names s) (call : SessionCall) :
    Faithful o (call.noted names) (call.after o s) := by
  cases call with
  | invalidate =>
      intro id cached hk
      simp [SessionCall.after, Session.invalidate, Session.check?] at hk
  | validate size hpos rows columns =>
      have hrun := (PassSchedule.Sound.start (faithful_noted hs hpos rows columns)).runFor
        (PassOptions.inChunks_ne_zero hpos) (fun c hc => mem_noted names hpos rows hc) _
        (PassSchedule.effort_start (o.inChunks size) rows columns s)
      exact hrun.1.course.faithful

/-- What a session keeps after calls was made under names since the last invalidation. -/
theorem faithful_sessionAfter (o : PassOptions) (calls : List SessionCall) :
    Faithful o (namesSince calls) (sessionAfter o calls) := by
  induction calls using List.reverseRecOn with
  | nil => exact faithful_fresh o _
  | append_singleton calls call ih =>
      simp only [namesSince, sessionAfter, List.foldl_append, List.foldl_cons, List.foldl_nil]
      exact faithful_after ih call

/-- A session whose checks were made under the present names of columns has the checks that would
be made. -/
theorem alike_fresh (hs : Faithful o names s)
    (hnames : ∀ c ∈ columns, ∀ name ∈ names c.id, name = c.name) :
    Alike o rows columns s Session.fresh := by
  intro c hc source
  have hfresh : checkIn o rows Session.fresh c source =
      Check.compile source (cellValues c.id rows) c.name o.messages o.now := rfl
  rw [hfresh, checkIn]
  cases hm : s.matching? c.id source (some ((cellValues c.id rows).map Mark.ofValue)) with
  | none => rfl
  | some cached =>
      obtain ⟨field, hfield, hmade⟩ := made_of_matching hs hm
      rw [← hnames c hc field hfield, hmade]

/-! ### The names of kept checks -/

/-- The name under which the check of a column is made in a session: that of the check that is
kept, or its own. -/
def nameIn (rows : List Row) (s : Session) (c : Column) : String :=
  match RuleConfig.ofDescription c.description with
  | .ok (.found source _) =>
    ((s.matching? c.id source (some ((cellValues c.id rows).map Mark.ofValue))).map
      (·.check.field)).getD c.name
  | _ => c.name

theorem nameIn_fresh (rows : List Row) (c : Column) : nameIn rows Session.fresh c = c.name := by
  rw [nameIn]
  split <;> rfl

theorem compile_field {field : String} {column : List Value}
    (h : Check.compile source column field o.messages o.now = .ok check) : check.field = field := by
  simp only [Check.compile] at h
  cases hr : Rule.ofText source with
  | error e =>
      rw [hr] at h
      cases h
  | ok rule =>
      rw [hr] at h
      cases h
      rfl

/-- In a session a column is checked under one of the names that go with its identifier. -/
theorem configureIn_named (hs : Faithful o names s) (rows : List Row) (c : Column) :
    configureIn o rows s c = configure o rows (nameIn rows s c) c ∧
      (nameIn rows s c = c.name ∨ nameIn rows s c ∈ names c.id) := by
  simp only [configureIn, configure, nameIn]
  cases RuleConfig.ofDescription c.description with
  | error f => exact ⟨rfl, Or.inl rfl⟩
  | ok config =>
      cases config with
      | absent => exact ⟨rfl, Or.inl rfl⟩
      | broken text m => exact ⟨rfl, Or.inl rfl⟩
      | found source extra =>
          dsimp only
          rw [checkIn]
          cases hm : s.matching? c.id source
              (some ((cellValues c.id rows).map Mark.ofValue)) with
          | none => exact ⟨rfl, Or.inl rfl⟩
          | some cached =>
              obtain ⟨field, hfield, hmade⟩ := made_of_matching hs hm
              obtain rfl := compile_field hmade
              simp only [Option.map_some, Option.getD_some, hmade]
              exact ⟨trivial, Or.inr hfield⟩

theorem comesTo_named (hs : Faithful o names s) (rows : List Row) (c : Column) :
    comesTo o rows s c = alone o rows (nameIn rows s c) c := by
  rw [comesTo, (configureIn_named hs rows c).1, alone_eq]
  cases configure o rows (nameIn rows s c) c with
  | error f => rfl
  | ok made => cases made <;> rfl

/-- What is reported of a column in a session is what is reported under that name. -/
theorem records_named (hs : Faithful o names s) {out : ColumnOutcome}
    (h : comesTo (o.inChunks size) rows s c = .ok out) (ts : String) :
    out.failures.elim [] (·.violations ts) = recordsOf o rows ts (nameIn rows s c) c := by
  obtain ⟨made, hmade, -, -, hrecords⟩ := outcome_exact h
  rw [(configureIn_named hs rows c).1] at hmade
  rw [recordsOf, hmade, hrecords]
  rfl

/-- A session and a fresh one report as many problems of a column. -/
theorem recordsOf_length (hs : Faithful o names s) {out out' : ColumnOutcome}
    (h : comesTo (o.inChunks size) rows s c = .ok out)
    (h' : comesTo (o.inChunks size) rows Session.fresh c = .ok out') (ts : String) :
    (recordsOf o rows ts (nameIn rows s c) c).length = (recordsOf o rows ts c.name c).length := by
  have hfresh : Faithful o names Session.fresh := faithful_fresh o names
  have hrecords := records_named hs h ts
  have hrecords' := records_named hfresh h' ts
  rw [nameIn_fresh] at hrecords'
  rw [comesTo_named hs.inChunks] at h
  rw [comesTo_named hfresh.inChunks] at h'
  have hsame := congrArg List.length ((alone_named h h').violations ts)
  rw [List.length_map, List.length_map, hrecords, hrecords'] at hsame
  exact hsame.symm

end ColumnRun

namespace PassSchedule

open ColumnRun Pass

/-- What a pass in chunks of a size over columns ends with in a session. -/
def resultIn (o : PassOptions) (size : Nat) (rows : List Row) (columns : List Column) (s : Session)
    (ts : String) : Except Fault (Option Report) :=
  (run (Pass.start (o.inChunks size) rows columns) s).result ts

variable {report report' : Report}

/-- A pass ends with the fault of a column by itself, or with the report on what columns come to by
themselves, each under some name. -/
theorem resultIn_cases (hpos : 0 < size) (hs : Faithful o names s) (rows : List Row)
    (columns : List Column) (ts : String) :
    (∃ f, resultIn o size rows columns s ts = .error f ∧
        ∃ c ∈ columns, ∃ field, alone (o.inChunks size) rows field c = .error f) ∨
      ∃ outs, resultIn o size rows columns s ts = .ok (some (reportOf rows.length ts outs)) ∧
        List.Forall₂ (fun c out => ∃ field, alone (o.inChunks size) rows field c = .ok out)
          columns outs := by
  obtain ⟨f, hres, c, hc, field, -, hf⟩ | ⟨outs, hres, houts⟩ :=
    result_cases (PassOptions.inChunks_ne_zero (o := o) hpos)
      (fun c hc => mem_noted names hpos rows hc) (faithful_noted hs hpos rows columns) rows ts
  · exact Or.inl ⟨f, hres, c, hc, field, hf⟩
  · exact Or.inr ⟨outs, hres, houts.imp fun c out ⟨field, _, hout⟩ => ⟨field, hout⟩⟩

theorem resultIn_wording (hpos : 0 < size) (hs : Faithful o names s) (hs' : Faithful o names s')
    (h : resultIn o size rows columns s ts = .ok (some report))
    (h' : resultIn o size rows columns s' ts = .ok (some report')) :
    report.withoutWording = report'.withoutWording := by
  obtain ⟨f, hres, -⟩ | ⟨outs, hres, houts⟩ := resultIn_cases hpos hs rows columns ts
  · rw [hres] at h
    cases h
  obtain ⟨f, hres', -⟩ | ⟨outs', hres', houts'⟩ := resultIn_cases hpos hs' rows columns ts
  · rw [hres'] at h'
    cases h'
  rw [hres] at h
  rw [hres'] at h'
  cases h
  cases h'
  apply reportOf_withoutWording
  refine forall₂_of_forall₂ houts' houts ?_
  rintro c out out' ⟨field, hout⟩ ⟨field', hout'⟩
  exact alone_named hout hout'

/-- If messages can always be written, a pass ends with a report in every session or in none. -/
theorem resultIn_reports (hpos : 0 < size) (hs : Faithful o names s) (hs' : Faithful o names s')
    (hw : o.messages.Writable)
    (h : ∃ report, resultIn o size rows columns s ts = .ok (some report)) :
    ∃ report, resultIn o size rows columns s' ts = .ok (some report) := by
  obtain ⟨report, h⟩ := h
  obtain ⟨f, -, c, hc, field, hf⟩ | ⟨outs, hres, -⟩ := resultIn_cases hpos hs' rows columns ts
  · exfalso
    obtain ⟨f', hres', -⟩ | ⟨outs', -, houts'⟩ := resultIn_cases hpos hs rows columns ts
    · rw [hres'] at h
      cases h
    · obtain ⟨i, hi, rfl⟩ := List.mem_iff_getElem.mp hc
      obtain ⟨field', hout'⟩ := houts'.get hi (houts'.length_eq ▸ hi)
      obtain ⟨out, hout⟩ := alone_ok_named hw ⟨_, hout'⟩ field
      rw [List.get_eq_getElem, hf] at hout
      cases hout
  · exact ⟨_, hres⟩

/-- A report of a pass over columns of different identifiers in a session, by columns. -/
theorem resultIn_outcomes (hpos : 0 < size) (hids : (columns.map (·.id)).Nodup)
    (hs : Faithful o names s) (h : resultIn o size rows columns s ts = .ok (some report)) :
    ∃ outs, List.Forall₂ (fun c out => comesTo (o.inChunks size) rows s c = .ok out) columns outs ∧
      report = reportOf rows.length ts outs := by
  have hresult := run_result (PassOptions.inChunks_ne_zero (o := o) hpos) hids
    (fun c hc => mem_noted names hpos rows hc) (faithful_noted hs hpos rows columns) rows ts
  rw [resultIn] at h
  rw [h] at hresult
  obtain ⟨outs, houts, hreport⟩ := Option.map_eq_some_iff.mp hresult.symm
  exact ⟨outs, outcomesIn_eq_some_iff.mp houts, (Option.some.inj hreport).symm⟩

theorem resultIn_violations (hpos : 0 < size) (hids : (columns.map (·.id)).Nodup)
    (hs : Faithful o names s) (h : resultIn o size rows columns s ts = .ok (some report)) :
    report.violations = columns.flatMap fun c => recordsOf o rows ts (nameIn rows s c) c := by
  obtain ⟨outs, houts, rfl⟩ := resultIn_outcomes hpos hids hs h
  have hrecords := map_eq_of_forall₂ (houts.imp fun _ _ hout => records_named hs hout ts)
  rw [reportOf_violations, List.flatMap_def, hrecords, List.flatMap_def]

/-- A report in a kept session is that of a fresh one exactly if every column is reported in the
words that its own name would give. -/
theorem resultIn_eq_iff (hpos : 0 < size) (hids : (columns.map (·.id)).Nodup)
    (hs : Faithful o names s) (h : resultIn o size rows columns s ts = .ok (some report))
    (h' : resultIn o size rows columns Session.fresh ts = .ok (some report')) :
    report = report' ↔ ∀ c ∈ columns,
      recordsOf o rows ts (nameIn rows s c) c = recordsOf o rows ts c.name c := by
  have hfresh : Faithful o names Session.fresh := faithful_fresh o names
  have hviolations := resultIn_violations hpos hids hs h
  have hviolations' := resultIn_violations hpos hids hfresh h'
  simp only [nameIn_fresh] at hviolations'
  have hwording := resultIn_wording hpos hs hfresh h h'
  have hlength : ∀ c ∈ columns, (recordsOf o rows ts (nameIn rows s c) c).length =
      (recordsOf o rows ts c.name c).length := by
    obtain ⟨outs, houts, -⟩ := resultIn_outcomes hpos hids hs h
    obtain ⟨outs', houts', -⟩ := resultIn_outcomes hpos hids hfresh h'
    intro c hc
    obtain ⟨i, hi, rfl⟩ := List.mem_iff_getElem.mp hc
    exact recordsOf_length hs (houts.get hi (houts.length_eq ▸ hi))
      (houts'.get hi (houts'.length_eq ▸ hi)) ts
  rw [← flatMap_eq_iff hlength, ← hviolations, ← hviolations']
  constructor
  · rintro rfl
    rfl
  · intro hsame
    calc
      report = { report.withoutWording with violations := report.violations } := rfl
      _ = { report'.withoutWording with violations := report'.violations } := by
        rw [hwording, hsame]
      _ = report' := rfl

/-- A code that is too short. -/
def shortCode : List Row :=
  [⟨1, "r1", [("f", "ab")], none, none⟩]

/-- The column of short codes under another name. -/
def retitled : Column :=
  { ruled "string|min:3" with name := "Title" }

/-- The column of short codes is validated under its first name. -/
def beforeRetitled : SessionCall :=
  .validate 1 Nat.one_pos shortCode [ruled "string|min:3"]

theorem retitled_reported : ∃ report, resultIn dayOptions 1 shortCode [retitled]
    (sessionAfter dayOptions [beforeRetitled]) "" = .ok (some report) := by
  apply ok_some_of_isSome
  decide +kernel

theorem retitled_reported_fresh : ∃ report, resultIn dayOptions 1 shortCode [retitled]
    Session.fresh "" = .ok (some report) := by
  apply ok_some_of_isSome
  decide +kernel

end PassSchedule

end TableAudit
