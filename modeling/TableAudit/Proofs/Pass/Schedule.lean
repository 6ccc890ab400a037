import Mathlib.Algebra.Order.BigOperators.Group.List
import Mathlib.Algebra.Order.Ring.Nat
import Mathlib.Data.List.Forall2
import TableAudit.Pass.Schedule
import TableAudit.Proofs.Pass.Column

/-!
# What a pass comes to

However the columns of a pass take their turns, each of them stays on its way to what it comes to
by itself. The queue gives every column its turns and ends the pass within the number of jobs that
it is allowed: after a column that failed announced itself, or after all columns did. So a pass
ends with the fault of a column, or with the report on what its columns come to.
-/

namespace TableAudit

open ColumnRun

variable {o : PassOptions} {rows : List Row} {names : String → List String}
variable {columns : List Column} {s : Session} {ts : String} {i : Nat}

namespace Pass

variable {p : Pass}

/-- Every column is on its way to what it comes to, and the session is faithful. -/
structure OnCourse (o : PassOptions) (rows : List Row) (names : String → List String)
    (columns : List Column) (p : Pass) (s : Session) : Prop where
  sameOptions : p.options = o
  sameRows : p.rows = rows
  length : p.runs.length = columns.length
  leads : ∀ (i : Nat) c r, columns[i]? = some c → p.runs[i]? = some r → LeadsTo o rows names c r
  faithful : Faithful o names s

theorem OnCourse.start (hs : Faithful o names s) :
    OnCourse o rows names columns (start o rows columns) s where
  sameOptions := rfl
  sameRows := rfl
  length := by simp [Pass.start]
  leads i c r hc hr := by
    simp only [Pass.start, List.getElem?_map, hc, Option.map_some, Option.some.injEq] at hr
    rw [← hr]
    rfl
  faithful := hs

/-- A turn changes the column that has it, if that is open, and nothing else. -/
theorem turn_cases (p : Pass) (s : Session) (i : Nat) :
    ((p.turn s i).pass = p ∧ (p.turn s i).session = s ∧ PassSchedule.isOpenAt p i = false) ∨
      ∃ r, p.runs[i]? = some r ∧ r.isOpen = true ∧
        (p.turn s i).pass.runs = p.runs.set i (r.turn p.options p.rows s).run ∧
        (p.turn s i).pass.rows = p.rows ∧ (p.turn s i).pass.options = p.options ∧
        (p.turn s i).session = (r.turn p.options p.rows s).session := by
  cases hr : p.runs[i]? with
  | none =>
      left
      simp [turn, PassSchedule.isOpenAt, hr]
  | some r =>
      by_cases ho : r.isOpen = true
      · refine Or.inr ⟨r, rfl, ho, ?_, ?_, ?_, ?_⟩ <;> simp [turn, hr, ho]
      · left
        simp [turn, PassSchedule.isOpenAt, hr, ho]

/-- A turn of any column keeps all of them on their way. -/
theorem OnCourse.turn (hz : o.chunkSize ≠ some 0) (hn : ∀ c ∈ columns, c.name ∈ names c.id)
    (h : OnCourse o rows names columns p s) (i : Nat) :
    OnCourse o rows names columns (p.turn s i).pass (p.turn s i).session := by
  obtain ⟨hp, hs, -⟩ | ⟨r, hr, ho, hruns, hrows, hopt, hs⟩ := turn_cases p s i
  · rw [hp, hs]
    exact h
  · have hlt : i < columns.length := by
      rw [← h.length]
      exact (List.getElem?_eq_some_iff.mp hr).1
    have hturn := turn_leadsTo hz h.faithful
      (hn columns[i] (List.getElem_mem hlt))
      (h.leads i columns[i] r (List.getElem?_eq_getElem hlt) hr)
    rw [h.sameOptions, h.sameRows] at hruns hs
    refine ⟨hopt.trans h.sameOptions, hrows.trans h.sameRows, ?_, fun j c r' hc hr' => ?_, ?_⟩
    · rw [hruns, List.length_set, h.length]
    · rw [hruns, List.getElem?_set] at hr'
      split at hr'
      next hij =>
        subst hij
        split at hr'
        · obtain rfl := Option.some.inj hr'
          obtain rfl : columns[i] = c := by
            rw [List.getElem?_eq_getElem hlt] at hc
            exact Option.some.inj hc
          exact hturn.2.1
        · simp at hr'
      next => exact h.leads j c r' hc hr'
    · rw [hs]
      exact hturn.1

/-- How many turns the column at a place has at most. -/
def turnsLeftAt (p : Pass) (i : Nat) : Nat :=
  (p.runs[i]?).elim 0 (turnsLeft p.rows)

theorem turnsLeftAt_turn (hz : o.chunkSize ≠ some 0) (hn : ∀ c ∈ columns, c.name ∈ names c.id)
    (h : OnCourse o rows names columns p s) (i j : Nat) :
    turnsLeftAt (p.turn s i).pass j ≤ turnsLeftAt p j ∧
      (PassSchedule.isOpenAt p i = true →
        turnsLeftAt (p.turn s i).pass i < turnsLeftAt p i) := by
  obtain ⟨hp, -, hc⟩ | ⟨r, hr, ho, hruns, hrows, -, -⟩ := turn_cases p s i
  · rw [hp]
    exact ⟨Nat.le_refl _, by simp [hc]⟩
  · have hlt : i < columns.length := by
      rw [← h.length]
      exact (List.getElem?_eq_some_iff.mp hr).1
    have hdown := (turn_leadsTo hz h.faithful
      (hn columns[i] (List.getElem_mem hlt))
      (h.leads i columns[i] r (List.getElem?_eq_getElem hlt) hr)).2.2 ho
    have hat : turnsLeftAt (p.turn s i).pass i < turnsLeftAt p i := by
      have hlt' : i < p.runs.length := by rw [h.length]; exact hlt
      rw [turnsLeftAt, turnsLeftAt, hruns, List.getElem?_set_self hlt', hr, hrows, h.sameRows,
        h.sameOptions]
      exact hdown
    refine ⟨?_, fun _ => hat⟩
    by_cases hij : i = j
    · subst hij
      exact Nat.le_of_lt hat
    · exact Nat.le_of_eq (by rw [turnsLeftAt, turnsLeftAt, hruns, List.getElem?_set_ne hij, hrows])

/-- A column that is not open keeps what it ended with. -/
theorem turn_getElem?_of_closed {j : Nat} {r : ColumnRun} (hr : p.runs[j]? = some r)
    (hc : r.isOpen = false) (i : Nat) : (p.turn s i).pass.runs[j]? = some r := by
  obtain ⟨hp, -⟩ | ⟨r', hr', ho, hruns, -⟩ := turn_cases p s i
  · rw [hp]
    exact hr
  · rw [hruns, List.getElem?_set_ne, hr]
    rintro rfl
    rw [hr] at hr'
    rw [Option.some.inj hr', ho] at hc
    simp at hc

theorem turn_getElem?_of_ne {j : Nat} (hij : j ≠ i) (p : Pass) (s : Session) :
    (p.turn s i).pass.runs[j]? = p.runs[j]? := by
  obtain ⟨hp, -⟩ | ⟨r, -, -, hruns, -⟩ := turn_cases p s i
  · rw [hp]
  · rw [hruns, List.getElem?_set_ne hij.symm]

/-- No turn opens a column. -/
theorem isOpenAt_of_turn (h : PassSchedule.isOpenAt (p.turn s i).pass i = true) :
    PassSchedule.isOpenAt p i = true := by
  obtain ⟨hp, -⟩ | ⟨r, hr, ho, -⟩ := turn_cases p s i
  · rwa [hp] at h
  · simpa [PassSchedule.isOpenAt, hr] using ho

end Pass

namespace PassSchedule

variable {q : PassSchedule} {j : PassJob} {rest : List PassJob}

/-- The jobs that are turns and announcements of columns. -/
def columnJobs (queue : List PassJob) : List PassJob :=
  queue.filter (· ≠ .over)

/-- What is true of a pass with its queue at any time. -/
structure Sound (o : PassOptions) (rows : List Row) (names : String → List String)
    (columns : List Column) (q : PassSchedule) : Prop where
  course : Pass.OnCourse o rows names columns q.pass q.session
  counted : q.fault = none → q.settled + (columnJobs q.queue).length = columns.length
  queued : ∀ i, isOpenAt q.pass i = true → .turn i ∈ q.queue
  failing : ∀ i f, faultAt? q.pass i = some f → q.fault.isSome = true ∨ .settled i ∈ q.queue
  noted : ∀ f, q.fault = some f → ∃ i, faultAt? q.pass i = some f
  called : q.isOver = true ∨ .over ∈ q.queue → q.fault.isSome = true ∨ q.settled = columns.length

/-- What a job costs: a column pays for its turns and its announcement when it queues for a turn. -/
def cost (p : Pass) : PassJob → Nat
  | .turn i => p.turnsLeftAt i + 2
  | .settled _ => 1
  | .over => 1

/-- Whether the end of the pass is still to be called. -/
def isUncalled (q : PassSchedule) : Bool :=
  q.fault.isNone && q.settled < q.pass.runs.length

/-- How many jobs there are to come at most. -/
def effort (q : PassSchedule) : Nat :=
  (q.queue.map (cost q.pass)).sum + q.isUncalled.toNat

theorem cost_pos (p : Pass) (j : PassJob) : 0 < cost p j := by
  cases j with
  | turn i => exact Nat.succ_pos _
  | settled i => exact Nat.one_pos
  | «over» => exact Nat.one_pos

theorem Sound.start (hs : Faithful o names s) :
    Sound o rows names columns (start (Pass.start o rows columns) s) where
  course := Pass.OnCourse.start hs
  counted _ := by
    have hall : columnJobs ((List.range columns.length).map .turn) =
        (List.range columns.length).map .turn := by
      apply List.filter_eq_self.mpr
      intro j hj
      obtain ⟨i, -, rfl⟩ := List.mem_map.mp hj
      rfl
    simp [PassSchedule.start, Pass.start, hall]
  queued i hi := by
    have hlt : i < columns.length := by
      apply Nat.lt_of_not_le
      intro hge
      simp [isOpenAt, PassSchedule.start, Pass.start, List.getElem?_eq_none hge] at hi
    simp [PassSchedule.start, Pass.start, hlt]
  failing i f hf := by
    simp only [faultAt?, PassSchedule.start, Pass.start, List.getElem?_map] at hf
    cases hc : columns[i]? <;> simp [hc] at hf
  noted f hf := by simp [PassSchedule.start] at hf
  called hover := by
    right
    obtain ho | ho := hover
    · have he : columns = [] := by simpa [PassSchedule.start, Pass.start] using ho
      rw [he]
      rfl
    · simp [PassSchedule.start] at ho

theorem faultAt_eq_some {p : Pass} {f : Fault} :
    faultAt? p i = some f ↔ p.runs[i]? = some (.failed f) := by
  rw [faultAt?]
  cases p.runs[i]? with
  | none => simp
  | some r => cases r <;> simp

theorem not_isOpenAt_of_fault {p : Pass} {f : Fault} (h : faultAt? p i = some f) :
    isOpenAt p i = false := by
  rw [isOpenAt, faultAt_eq_some.mp h]
  rfl

theorem sum_cost_le {p p' : Pass} (h : ∀ k, p'.turnsLeftAt k ≤ p.turnsLeftAt k)
    (queue : List PassJob) : (queue.map (cost p')).sum ≤ (queue.map (cost p)).sum := by
  refine List.sum_le_sum fun j _ => ?_
  cases j with
  | turn k => exact Nat.add_le_add_right (h k) 2
  | settled k => exact Nat.le_refl _
  | «over» => exact Nat.le_refl _

/-- A turn of a column takes one from the effort of the column, and adds none to that of others. -/
theorem Sound.effort_turn (hz : o.chunkSize ≠ some 0) (hn : ∀ c ∈ columns, c.name ∈ names c.id)
    (h : Sound o rows names columns q) (hq : q.queue = .turn i :: rest) :
    effort ({ q with queue := rest }.job (.turn i)) < effort q := by
  have hdown := Pass.turnsLeftAt_turn hz hn h.course i
  have hlength : (q.pass.turn q.session i).pass.runs.length = q.pass.runs.length :=
    (h.course.turn hz hn i).length.trans h.course.length.symm
  have hrest := sum_cost_le (fun k => (hdown k).1) rest
  have hnext : cost (q.pass.turn q.session i).pass
      (if isOpenAt (q.pass.turn q.session i).pass i then .turn i else .settled i) <
        cost q.pass (.turn i) := by
    split
    next ho => exact Nat.add_lt_add_right ((hdown i).2 (Pass.isOpenAt_of_turn ho)) 2
    next => exact Nat.lt_of_lt_of_le Nat.one_lt_two (Nat.le_add_left 2 _)
  have hcall : ({ q with queue := rest }.job (.turn i)).isUncalled = q.isUncalled := by
    simp only [isUncalled, job, hlength]
  rw [effort, effort, hcall, hq]
  simp only [job, List.map_append, List.map_cons, List.map_nil, List.sum_append, List.sum_cons,
    List.sum_nil]
  omega

/-- A turn of a column keeps everything in order and lowers the effort to come. -/
theorem Sound.turn (hz : o.chunkSize ≠ some 0) (hn : ∀ c ∈ columns, c.name ∈ names c.id)
    (h : Sound o rows names columns q) (hq : q.queue = .turn i :: rest) :
    Sound o rows names columns ({ q with queue := rest }.job (.turn i)) ∧
      effort ({ q with queue := rest }.job (.turn i)) < effort q := by
  refine ⟨⟨h.course.turn hz hn i, fun hf => ?_, fun k hk => ?_, fun k f hk => ?_, fun f hf => ?_,
    fun ho => ?_⟩, h.effort_turn hz hn hq⟩
  · have hcount := h.counted hf
    rw [hq, columnJobs, List.filter_cons_of_pos (by simp), List.length_cons] at hcount
    simp only [job, columnJobs, List.filter_append, List.length_append] at hcount ⊢
    split <;> simpa [columnJobs] using hcount
  · simp only [job, List.mem_append, List.mem_singleton] at hk ⊢
    by_cases hik : k = i
    · subst hik
      rw [if_pos hk]
      exact Or.inr rfl
    · rw [isOpenAt, Pass.turn_getElem?_of_ne hik] at hk
      have hmem := h.queued k hk
      rw [hq, List.mem_cons, PassJob.turn.injEq] at hmem
      exact Or.inl (hmem.resolve_left hik)
  · simp only [job, List.mem_append, List.mem_singleton] at hk ⊢
    by_cases hik : k = i
    · subst hik
      rw [if_neg (by simp [not_isOpenAt_of_fault hk])]
      exact Or.inr (Or.inr rfl)
    · rw [faultAt?, Pass.turn_getElem?_of_ne hik] at hk
      refine (h.failing k f hk).imp_right fun hmem => ?_
      rw [hq, List.mem_cons] at hmem
      exact Or.inl (hmem.resolve_left (by simp))
  · obtain ⟨k, hk⟩ := h.noted f hf
    refine ⟨k, faultAt_eq_some.mpr ?_⟩
    exact Pass.turn_getElem?_of_closed (faultAt_eq_some.mp hk) rfl i
  · apply h.called
    rw [hq]
    refine ho.imp_right fun hmem => List.mem_cons_of_mem _ ?_
    simp only [job, List.mem_append, List.mem_singleton] at hmem
    refine hmem.resolve_right ?_
    split <;> simp

/-! An announcement is without effect after a fault; it tells the fault of its column, or is
counted, and the last one that is calls the end. -/

theorem Sound.turn_mem (h : Sound o rows names columns q) (hq : q.queue = .settled i :: rest)
    {k : Nat} (hk : isOpenAt q.pass k = true) : .turn k ∈ rest := by
  have hmem := h.queued k hk
  rw [hq, List.mem_cons] at hmem
  exact hmem.resolve_left (by simp)

theorem Sound.counted_rest (h : Sound o rows names columns q) (hq : q.queue = .settled i :: rest)
    (hnone : q.fault = none) : q.settled + 1 + (columnJobs rest).length = columns.length := by
  have hcount := h.counted hnone
  rw [hq, columnJobs, List.filter_cons_of_pos (by simp), List.length_cons, ← columnJobs] at hcount
  omega

/-- While an announcement is to be counted, the end has not been called. -/
theorem Sound.not_called (h : Sound o rows names columns q) (hq : q.queue = .settled i :: rest)
    (hnone : q.fault = none) : ¬ (q.isOver = true ∨ .over ∈ q.queue) := by
  intro ho
  obtain hs | hs := h.called ho
  · simp [hnone] at hs
  · have hcount := h.counted_rest hq hnone
    omega

theorem effort_of_settled (hq : q.queue = .settled i :: rest) :
    effort q = (rest.map (cost q.pass)).sum + 1 + q.isUncalled.toNat := by
  rw [effort, hq, List.map_cons, List.sum_cons, Nat.add_comm (cost q.pass (.settled i))]
  rfl

theorem Sound.effort_of_settled (h : Sound o rows names columns q)
    (hq : q.queue = .settled i :: rest) (hnone : q.fault = none) :
    effort q = (rest.map (cost q.pass)).sum + 2 := by
  have hlt : q.settled < q.pass.runs.length := by
    have hcount := h.counted_rest hq hnone
    have hlength := h.course.length
    omega
  rw [PassSchedule.effort_of_settled hq, isUncalled, hnone]
  simp [hlt]

theorem Sound.settled_late (h : Sound o rows names columns q) (hq : q.queue = .settled i :: rest)
    (hf : q.fault.isSome = true) :
    Sound o rows names columns ({ q with queue := rest }.job (.settled i)) ∧
      effort ({ q with queue := rest }.job (.settled i)) < effort q := by
  have hjob : { q with queue := rest }.job (.settled i) = { q with queue := rest } := if_pos hf
  rw [hjob]
  refine ⟨⟨h.course, fun hnone => ?_, fun k hk => h.turn_mem hq hk, fun _ _ _ => Or.inl hf,
    h.noted, fun _ => Or.inl hf⟩, ?_⟩
  · rw [show q.fault = none from hnone] at hf
    simp at hf
  · have he : effort { q with queue := rest } =
        (rest.map (cost q.pass)).sum + q.isUncalled.toNat := rfl
    rw [he, PassSchedule.effort_of_settled hq]
    omega

theorem Sound.settled_failed (h : Sound o rows names columns q) (hq : q.queue = .settled i :: rest)
    (hnone : q.fault = none) {f : Fault} (hf : faultAt? q.pass i = some f) :
    Sound o rows names columns ({ q with queue := rest }.job (.settled i)) ∧
      effort ({ q with queue := rest }.job (.settled i)) < effort q := by
  have hjob : { q with queue := rest }.job (.settled i) =
      { q with fault := some f, queue := rest ++ [.over] } := by
    simp [job, hnone, hf]
  rw [hjob]
  refine ⟨⟨h.course, by simp, fun k hk => List.mem_append_left _ (h.turn_mem hq hk), by simp,
    fun g hg => ⟨i, by rw [hf, ← hg]⟩, by simp⟩, ?_⟩
  have he : effort { q with fault := some f, queue := rest ++ [.over] } =
      (rest.map (cost q.pass)).sum + 1 := by
    simp [effort, isUncalled, cost]
  rw [he, h.effort_of_settled hq hnone]
  omega

theorem Sound.settled_ended (h : Sound o rows names columns q) (hq : q.queue = .settled i :: rest)
    (hnone : q.fault = none) (hf : faultAt? q.pass i = none) :
    Sound o rows names columns ({ q with queue := rest }.job (.settled i)) ∧
      effort ({ q with queue := rest }.job (.settled i)) < effort q := by
  have hjob : { q with queue := rest }.job (.settled i) =
      { q with
        settled := q.settled + 1
        queue := if q.settled + 1 = q.pass.runs.length then rest ++ [.over] else rest } := by
    simp [job, hnone, hf]
  have hmem {j : PassJob} (hj : j ∈ rest) :
      j ∈ if q.settled + 1 = q.pass.runs.length then rest ++ [.over] else rest := by
    split
    · exact List.mem_append_left _ hj
    · exact hj
  rw [hjob]
  refine ⟨⟨h.course, fun _ => ?_, fun k hk => hmem (h.turn_mem hq hk), fun k f hk => ?_, h.noted,
    fun ho => Or.inr ?_⟩, ?_⟩
  · have hjobs : columnJobs (if q.settled + 1 = q.pass.runs.length then rest ++ [.over]
        else rest) = columnJobs rest := by
      split
      · simp [columnJobs]
      · rfl
    simp only [hjobs]
    exact h.counted_rest hq hnone
  · right
    obtain hs | hs := h.failing k f hk
    · simp [hnone] at hs
    · rw [hq, List.mem_cons, PassJob.settled.injEq] at hs
      refine hmem (hs.resolve_left ?_)
      rintro rfl
      rw [hk] at hf
      cases hf
  · have hcalled := h.not_called hq hnone
    obtain ho | ho := ho
    · exact absurd (Or.inl ho) hcalled
    · simp only at ho
      split at ho
      next hs => exact hs.trans h.course.length
      next =>
        refine absurd (Or.inr ?_) hcalled
        rw [hq]
        exact List.mem_cons_of_mem _ ho
  · rw [effort, h.effort_of_settled hq hnone]
    by_cases hlast : q.settled + 1 = q.pass.runs.length
    · simp [isUncalled, hlast, hnone, cost]
    · have hcall := Bool.toNat_le (isUncalled { q with
        settled := q.settled + 1
        queue := if q.settled + 1 = q.pass.runs.length then rest ++ [.over] else rest })
      simp only [if_neg hlast] at hcall ⊢
      omega

/-- The announcement of a column keeps everything in order and lowers the effort to come. -/
theorem Sound.settled (h : Sound o rows names columns q) (hq : q.queue = .settled i :: rest) :
    Sound o rows names columns ({ q with queue := rest }.job (.settled i)) ∧
      effort ({ q with queue := rest }.job (.settled i)) < effort q := by
  by_cases hfault : q.fault.isSome = true
  · exact h.settled_late hq hfault
  · have hnone : q.fault = none := by simpa using hfault
    cases hf : faultAt? q.pass i with
    | some f => exact h.settled_failed hq hnone hf
    | none => exact h.settled_ended hq hnone hf

/-- The end of the pass is the last job. -/
theorem Sound.over (h : Sound o rows names columns q) (hq : q.queue = .over :: rest) :
    Sound o rows names columns ({ q with queue := rest }.job .over) ∧
      effort ({ q with queue := rest }.job .over) < effort q := by
  have hmem {j : PassJob} (hj : j ∈ q.queue) (hne : j ≠ .over) : j ∈ rest := by
    rw [hq, List.mem_cons] at hj
    exact hj.resolve_left hne
  refine ⟨⟨h.course, fun hf => ?_, fun k hk => hmem (h.queued k hk) (by simp),
    fun k f hk => (h.failing k f hk).imp_right fun hs => hmem hs (by simp), h.noted,
    fun _ => h.called (Or.inr (by simp [hq]))⟩, ?_⟩
  · have hcount := h.counted hf
    rw [hq, columnJobs, List.filter_cons_of_neg (by simp)] at hcount
    exact hcount
  · have hcall : ({ q with queue := rest }.job .over).isUncalled = q.isUncalled := rfl
    rw [effort, effort, hq, List.map_cons, List.sum_cons, hcall]
    simp only [job, cost]
    omega

theorem Sound.job (hz : o.chunkSize ≠ some 0) (hn : ∀ c ∈ columns, c.name ∈ names c.id)
    (h : Sound o rows names columns q) (hq : q.queue = j :: rest) :
    Sound o rows names columns ({ q with queue := rest }.job j) ∧
      effort ({ q with queue := rest }.job j) < effort q := by
  cases j with
  | turn i => exact h.turn hz hn hq
  | settled i => exact h.settled hq
  | «over» => exact h.over hq

/-- With as many jobs as the effort to come, a pass gets to its end. -/
theorem Sound.runFor (hz : o.chunkSize ≠ some 0) (hn : ∀ c ∈ columns, c.name ∈ names c.id)
    (fuel : Nat) (h : Sound o rows names columns q) (hfuel : effort q ≤ fuel) :
    Sound o rows names columns (runFor fuel q) ∧
      ((PassSchedule.runFor fuel q).isOver = true ∨ (PassSchedule.runFor fuel q).queue = []) := by
  induction fuel generalizing q with
  | zero =>
      refine ⟨h, Or.inr ?_⟩
      simp only [PassSchedule.runFor]
      cases hq : q.queue with
      | nil => rfl
      | cons j rest =>
          have hpos := cost_pos q.pass j
          rw [effort, hq, List.map_cons, List.sum_cons] at hfuel
          omega
  | succ fuel ih =>
      simp only [PassSchedule.runFor]
      split
      next ho => exact ⟨h, Or.inl ho⟩
      next =>
        split
        next hq => exact ⟨h, Or.inr hq⟩
        next j rest hq =>
          obtain ⟨hs, hlt⟩ := h.job hz hn hq
          exact ih hs (by omega)

/-- The effort of a whole pass is within the number of jobs that it is allowed. -/
theorem effort_start (o : PassOptions) (rows : List Row) (columns : List Column) (s : Session) :
    effort (start (Pass.start o rows columns) s) ≤ jobBound (Pass.start o rows columns) := by
  have hcost (i : Nat) : cost (Pass.start o rows columns) (.turn i) ≤ rows.length + 3 := by
    simp only [cost, Pass.turnsLeftAt, Pass.start, List.getElem?_map]
    cases columns[i]? with
    | none => simp
    | some c => simp [turnsLeft]
  have hsum (is : List Nat) :
      ((is.map PassJob.turn).map (cost (Pass.start o rows columns))).sum ≤
        is.length * (rows.length + 3) := by
    induction is with
    | nil => simp
    | cons i is ih =>
        rw [List.map_cons, List.map_cons, List.sum_cons, List.length_cons, Nat.succ_mul]
        have := hcost i
        omega
  have hall := hsum (List.range columns.length)
  rw [List.length_range] at hall
  simp only [effort, jobBound, start]
  have hruns : (Pass.start o rows columns).runs.length = columns.length := by simp [Pass.start]
  have hrows : (Pass.start o rows columns).rows = rows := rfl
  have hcall := Bool.toNat_le (isUncalled (start (Pass.start o rows columns) s))
  rw [hruns, hrows]
  exact Nat.add_le_add hall hcall

theorem outcomes_of_ended {runs : List ColumnRun} (h : ∀ r ∈ runs, ∃ out, r = .ended out) :
    ∃ outs, Pass.outcomes? runs = some outs ∧ runs = outs.map .ended := by
  induction runs with
  | nil => exact ⟨[], rfl, rfl⟩
  | cons r runs ih =>
      obtain ⟨out, rfl⟩ := h r List.mem_cons_self
      obtain ⟨outs, ho, hr⟩ := ih fun r' hr' => h r' (List.mem_cons_of_mem _ hr')
      exact ⟨out :: outs, by simp [Pass.outcomes?, ho], by simp [hr]⟩

theorem Sound.leads_at (h : Sound o rows names columns q) {r : ColumnRun}
    (hr : q.pass.runs[i]? = some r) : ∃ c, columns[i]? = some c ∧ LeadsTo o rows names c r := by
  have hlt : i < columns.length := by
    rw [← h.course.length]
    exact (List.getElem?_eq_some_iff.mp hr).1
  exact ⟨columns[i], List.getElem?_eq_getElem hlt,
    h.course.leads i _ r (List.getElem?_eq_getElem hlt) hr⟩

/-- At an end without a fault, no column has a job left. -/
theorem Sound.columnJobs_eq_nil (h : Sound o rows names columns q)
    (hend : q.isOver = true ∨ q.queue = []) (hf : q.fault = none) : columnJobs q.queue = [] := by
  obtain ho | hq := hend
  · obtain hs | hs := h.called (Or.inl ho)
    · simp [hf] at hs
    · have hcount := h.counted hf
      rw [← List.length_eq_zero_iff]
      omega
  · rw [hq]
    rfl

/-- At an end without a fault, every column has ended: one that is open would be queued, and one
that failed would announce itself. -/
theorem Sound.all_ended (h : Sound o rows names columns q)
    (hend : q.isOver = true ∨ q.queue = []) (hf : q.fault = none) :
    ∀ r ∈ q.pass.runs, ∃ out, r = .ended out := by
  intro r hr
  obtain ⟨i, hi⟩ := List.mem_iff_getElem?.mp hr
  have hjob {j : PassJob} (hj : j ∈ q.queue) (hne : j ≠ .over) : False := by
    have hmem : j ∈ columnJobs q.queue := List.mem_filter.mpr ⟨hj, by simpa using hne⟩
    rw [h.columnJobs_eq_nil hend hf] at hmem
    cases hmem
  have hopen (ho : r.isOpen = true) : False :=
    hjob (h.queued i (by simpa [isOpenAt, hi] using ho)) (by simp)
  cases r with
  | waiting c => exact (hopen rfl).elim
  | checking w => exact (hopen rfl).elim
  | ended out => exact ⟨out, rfl⟩
  | failed f =>
      obtain hs | hs := h.failing i f (faultAt_eq_some.mpr hi)
      · simp [hf] at hs
      · exact (hjob hs (by simp)).elim

/-- A pass ends with the fault of a column, or with the report on what its columns come to. -/
theorem result_cases (hz : o.chunkSize ≠ some 0) (hn : ∀ c ∈ columns, c.name ∈ names c.id)
    (hs : Faithful o names s) (rows : List Row) (ts : String) :
    (∃ f, (run (Pass.start o rows columns) s).result ts = .error f ∧
        ∃ c ∈ columns, ∃ field ∈ names c.id, alone o rows field c = .error f) ∨
      ∃ outs, (run (Pass.start o rows columns) s).result ts =
          .ok (some (Pass.reportOf rows.length ts outs)) ∧
        List.Forall₂ (fun c out => ∃ field ∈ names c.id, alone o rows field c = .ok out)
          columns outs := by
  obtain ⟨h, hend⟩ := (Sound.start hs).runFor hz hn _ (effort_start o rows columns s)
  rw [← run] at h hend
  cases hf : (run (Pass.start o rows columns) s).fault with
  | some f =>
      left
      obtain ⟨i, hi⟩ := h.noted f hf
      obtain ⟨c, hc, field, hfield, hl⟩ := h.leads_at (faultAt_eq_some.mp hi)
      exact ⟨f, by simp only [result, hf], c, List.mem_of_getElem? hc, field, hfield, hl⟩
  | none =>
      right
      obtain ⟨outs, houts, hruns⟩ := outcomes_of_ended (h.all_ended hend hf)
      refine ⟨outs, ?_, List.forall₂_iff_get.mpr ⟨?_, fun i hi hi' => ?_⟩⟩
      · simp only [result, hf, Pass.report?, houts, Option.map_some, h.course.sameRows]
      · rw [← h.course.length, hruns, List.length_map]
      · have hr : (run (Pass.start o rows columns) s).pass.runs[i]? = some (.ended outs[i]) := by
          rw [hruns, List.getElem?_map, List.getElem?_eq_getElem hi']
          rfl
        obtain ⟨c, hc, hl⟩ := h.leads_at hr
        obtain rfl : columns[i] = c := by
          rw [List.getElem?_eq_getElem hi] at hc
          exact Option.some.inj hc
        exact hl

end PassSchedule

end TableAudit
