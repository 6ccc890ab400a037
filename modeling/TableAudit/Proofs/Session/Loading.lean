import Mathlib.Data.List.Induction
import TableAudit.Session.Loads

/-!
# Rows are never stale

Calls for the rows of a session and invalidations come in any order, and a reading may take any
time: whatever comes between its beginning and its end, other calls can only wait. So a history of
a session is a list of events, each of which is possible after those before it. The history tells
which reading the rows of a call are from, and in which generation it began, that is after how many
invalidations. No call gets rows of a reading that began in an earlier generation than that in
which the call arrived, and calls that have their turns in one generation share one reading.
-/

namespace TableAudit

/-- What happens to the rows of a session. -/
inductive LoadEvent
  /-- A call arrives. -/
  | called (id : LoadId)
  /-- The session is invalidated. -/
  | invalidated
  /-- A call takes its turn and returns the rows that are kept. -/
  | served (id : LoadId) (rows : List Row)
  /-- A call takes its turn and begins to read. -/
  | began (id : LoadId)
  /-- A reading ends, and its call returns the rows. -/
  | loaded (id : LoadId) (rows : List Row)
  /-- A reading fails, and its call with it. -/
  | failed (id : LoadId)
  /-- A call is given up, whether it waits or reads. -/
  | cancelled (id : LoadId)
deriving DecidableEq, Repr

namespace LoadEvent

/-- The call that takes its turn. -/
def turn? : LoadEvent → Option LoadId
  | served id _ => some id
  | began id => some id
  | _ => none

/-- The call that is over. -/
def over? : LoadEvent → Option LoadId
  | served id _ => some id
  | loaded id _ => some id
  | failed id => some id
  | cancelled id => some id
  | _ => none

/-- The call that returns, with its rows. -/
def returned? : LoadEvent → Option (LoadId × List Row)
  | served id rows => some (id, rows)
  | loaded id rows => some (id, rows)
  | _ => none

/-- Whether a reading succeeds. -/
def isLoad : LoadEvent → Bool
  | loaded _ _ => true
  | _ => false

end LoadEvent

/-- How many invalidations there were. -/
def generationOf (past : List LoadEvent) : Nat :=
  past.count .invalidated

/-- An event came in a generation. -/
def CameIn (past : List LoadEvent) (g : Nat) (e : LoadEvent) : Prop :=
  ∃ a b, past = a ++ e :: b ∧ generationOf a = g

/-- A reading that began in a generation is under way. -/
def ReadsIn (past : List LoadEvent) (g : Nat) (j : LoadId) : Prop :=
  ∃ a b, past = a ++ .began j :: b ∧ (∀ e ∈ b, e.over? ≠ some j) ∧ generationOf a = g

/-- The last reading that succeeded, the generation in which it began, and its rows. -/
def LoadedIn (past : List LoadEvent) (g : Nat) (j : LoadId) (rows : List Row) : Prop :=
  ∃ p q, past = p ++ .loaded j rows :: q ∧ ReadsIn p g j ∧ ∀ e ∈ q, e.isLoad = false

namespace Loads

/-- The calls that are not over. -/
def pending (l : Loads) : List LoadId :=
  l.holder.toList.map (·.id) ++ l.waiting

/-- An event is possible after others, and what it leads to. Every call has a number of its own. -/
inductive Step (past : List LoadEvent) (l : Loads) : LoadEvent → Loads → Prop
  | called (id : LoadId) (new : .called id ∉ past) : Step past l (.called id) (l.request id)
  | invalidated : Step past l .invalidated l.invalidate
  | served (id : LoadId) (rows : List Row) (l' : Loads)
      (turn : l.proceed? = some (.served id rows, l')) : Step past l (.served id rows) l'
  | began (id : LoadId) (l' : Loads) (turn : l.proceed? = some (.reads id, l')) :
      Step past l (.began id) l'
  | loaded (h : LoadHolder) (rows : List Row) (reads : l.holder = some h) :
      Step past l (.loaded h.id rows) (l.finish rows)
  | failed (h : LoadHolder) (reads : l.holder = some h) : Step past l (.failed h.id) l.fail
  | cancelled (id : LoadId) (isPending : id ∈ l.pending) : Step past l (.cancelled id) (l.cancel id)

/-- What events lead to from the beginning. -/
inductive Course : List LoadEvent → Loads → Prop
  | start : Course [] (start .fresh)
  | event {past : List LoadEvent} {l l' : Loads} {e : LoadEvent} (before : Course past l)
      (step : Step past l e l') : Course (past ++ [e]) l'

end Loads

section Histories

variable {past : List LoadEvent} {e x : LoadEvent} {g g' : Nat} {j k : LoadId}
variable {rows rows' : List Row}

theorem generationOf_concat : generationOf (past ++ [x]) =
    generationOf past + if x = .invalidated then 1 else 0 := by
  rw [generationOf, List.count_append, List.count_singleton, generationOf]
  simp only [beq_iff_eq]

theorem generationOf_concat_of_ne (h : x ≠ .invalidated) :
    generationOf (past ++ [x]) = generationOf past := by
  rw [generationOf_concat, if_neg h]
  rfl

theorem generationOf_le_append (past later : List LoadEvent) :
    generationOf past ≤ generationOf (past ++ later) := by
  rw [generationOf, generationOf, List.count_append]
  exact Nat.le_add_right _ _

/-- An occurrence in a history that is continued is the new event or an earlier one. -/
theorem concat_eq_append_cons {a b : List LoadEvent} :
    past ++ [x] = a ++ e :: b ↔
      (b = [] ∧ a = past ∧ x = e) ∨ ∃ b', b = b' ++ [x] ∧ past = a ++ e :: b' := by
  constructor
  · intro h
    obtain rfl | ⟨b', y, rfl⟩ := b.eq_nil_or_concat
    · obtain ⟨rfl, hx⟩ := List.append_inj' h rfl
      exact Or.inl ⟨rfl, rfl, by simpa using hx⟩
    · rw [List.concat_eq_append, ← List.cons_append, ← List.append_assoc] at h
      obtain ⟨rfl, hx⟩ := List.append_inj' h rfl
      obtain rfl : x = y := by simpa using hx
      exact Or.inr ⟨b', List.concat_eq_append, rfl⟩
  · rintro (⟨rfl, rfl, rfl⟩ | ⟨b', rfl, rfl⟩)
    · rfl
    · simp

theorem cameIn_concat :
    CameIn (past ++ [x]) g e ↔ CameIn past g e ∨ x = e ∧ generationOf past = g := by
  simp only [CameIn, concat_eq_append_cons]
  constructor
  · rintro ⟨a, b, ⟨rfl, rfl, rfl⟩ | ⟨b', rfl, rfl⟩, hg⟩
    · exact Or.inr ⟨rfl, hg⟩
    · exact Or.inl ⟨a, b', rfl, hg⟩
  · rintro (⟨a, b, rfl, hg⟩ | ⟨rfl, hg⟩)
    · exact ⟨a, b ++ [x], Or.inr ⟨b, rfl, rfl⟩, hg⟩
    · exact ⟨past, [], Or.inl ⟨rfl, rfl, rfl⟩, hg⟩

theorem CameIn.le (h : CameIn past g e) : g ≤ generationOf past := by
  obtain ⟨a, b, rfl, rfl⟩ := h
  exact generationOf_le_append a _

theorem ReadsIn.le (h : ReadsIn past g j) : g ≤ generationOf past := by
  obtain ⟨a, b, rfl, -, rfl⟩ := h
  exact generationOf_le_append a _

theorem CameIn.mem (h : CameIn past g e) : e ∈ past := by
  obtain ⟨a, b, rfl, -⟩ := h
  simp

theorem readsIn_concat : ReadsIn (past ++ [x]) g j ↔
    x = .began j ∧ generationOf past = g ∨ ReadsIn past g j ∧ x.over? ≠ some j := by
  simp only [ReadsIn, concat_eq_append_cons]
  constructor
  · rintro ⟨a, b, ⟨rfl, rfl, rfl⟩ | ⟨b', rfl, rfl⟩, hb, hg⟩
    · exact Or.inl ⟨rfl, hg⟩
    · rw [List.forall_mem_append, List.forall_mem_singleton] at hb
      exact Or.inr ⟨⟨a, b', rfl, hb.1, hg⟩, hb.2⟩
  · rintro (⟨rfl, hg⟩ | ⟨⟨a, b, rfl, hb, hg⟩, hx⟩)
    · exact ⟨past, [], Or.inl ⟨rfl, rfl, rfl⟩, List.forall_mem_nil _, hg⟩
    · refine ⟨a, b ++ [x], Or.inr ⟨b, rfl, rfl⟩, ?_, hg⟩
      rw [List.forall_mem_append, List.forall_mem_singleton]
      exact ⟨hb, hx⟩

theorem loadedIn_concat : LoadedIn (past ++ [x]) g j rows ↔
    x = .loaded j rows ∧ ReadsIn past g j ∨ LoadedIn past g j rows ∧ x.isLoad = false := by
  simp only [LoadedIn, concat_eq_append_cons]
  constructor
  · rintro ⟨p, q, ⟨rfl, rfl, rfl⟩ | ⟨q', rfl, rfl⟩, hp, hq⟩
    · exact Or.inl ⟨rfl, hp⟩
    · rw [List.forall_mem_append, List.forall_mem_singleton] at hq
      exact Or.inr ⟨⟨p, q', rfl, hp, hq.1⟩, hq.2⟩
  · rintro (⟨rfl, hp⟩ | ⟨⟨p, q, rfl, hp, hq⟩, hx⟩)
    · exact ⟨past, [], Or.inl ⟨rfl, rfl, rfl⟩, hp, List.forall_mem_nil _⟩
    · refine ⟨p, q ++ [x], Or.inr ⟨q, rfl, rfl⟩, hp, ?_⟩
      rw [List.forall_mem_append, List.forall_mem_singleton]
      exact ⟨hq, hx⟩

theorem not_readsIn_nil : ¬ ReadsIn [] g j := by
  rintro ⟨a, b, h, -⟩
  simp at h

theorem not_loadedIn_nil : ¬ LoadedIn [] g j rows := by
  rintro ⟨p, q, h, -⟩
  simp at h

/-- There is one last reading that succeeded. -/
theorem LoadedIn.unique (h : LoadedIn past g j rows) (h' : LoadedIn past g' k rows') :
    j = k ∧ rows = rows' := by
  induction past using List.reverseRecOn with
  | nil => exact (not_loadedIn_nil h).elim
  | append_singleton past x ih =>
      obtain ⟨rfl, -⟩ | ⟨h, hx⟩ := loadedIn_concat.mp h
      · obtain ⟨he, -⟩ | ⟨-, hx⟩ := loadedIn_concat.mp h'
        · exact ⟨by injection he, by injection he⟩
        · cases hx
      · obtain ⟨rfl, -⟩ | ⟨h', -⟩ := loadedIn_concat.mp h'
        · cases hx
        · exact ih h h'

end Histories

/-- An event returns the rows of a reading to a call that has its turn in a generation, and the
generation in which the reading began: the rows that are kept, or those of the call's own. -/
inductive Delivers (past : List LoadEvent) :
    LoadEvent → Nat → LoadId → Nat → LoadId → List Row → Prop
  | kept (i : LoadId) {r : Nat} {j : LoadId} {rows : List Row} (last : LoadedIn past r j rows) :
      Delivers past (.served i rows) (generationOf past) i r j rows
  | own {g : Nat} {i : LoadId} (rows : List Row) (reads : ReadsIn past g i) :
      Delivers past (.loaded i rows) g i g i rows

/-- A call that had its turn in a generation has returned the rows of a reading. -/
def Delivered (past : List LoadEvent) (g : Nat) (i : LoadId) (r : Nat) (j : LoadId)
    (rows : List Row) : Prop :=
  ∃ p e q, past = p ++ e :: q ∧ Delivers p e g i r j rows

section Deliveries

variable {past : List LoadEvent} {e x : LoadEvent} {g r : Nat} {i j : LoadId} {rows : List Row}

theorem delivered_concat : Delivered (past ++ [x]) g i r j rows ↔
      Delivered past g i r j rows ∨ Delivers past x g i r j rows := by
  simp only [Delivered, concat_eq_append_cons]
  constructor
  · rintro ⟨p, e, q, ⟨rfl, rfl, rfl⟩ | ⟨q', rfl, rfl⟩, hd⟩
    · exact Or.inr hd
    · exact Or.inl ⟨p, e, q', rfl, hd⟩
  · rintro (⟨p, e, q, rfl, hd⟩ | hd)
    · exact ⟨p, e, q ++ [x], Or.inr ⟨q, rfl, rfl⟩, hd⟩
    · exact ⟨past, x, [], Or.inl ⟨rfl, rfl, rfl⟩, hd⟩

theorem Delivers.turn_le (h : Delivers past e g i r j rows) : g ≤ generationOf past := by
  cases h with
  | kept i last => exact Nat.le_refl _
  | own rows reads => exact reads.le

theorem Delivered.turn_le (h : Delivered past g i r j rows) : g ≤ generationOf past := by
  obtain ⟨p, e, q, rfl, hd⟩ := h
  exact Nat.le_trans hd.turn_le (generationOf_le_append p _)

end Deliveries

namespace Loads

variable {past : List LoadEvent} {l l' : Loads} {e : LoadEvent} {g g' r r' : Nat}
variable {id i j k : LoadId} {rows rows' : List Row}

/-! ### One event -/

theorem proceed_served_iff : l.proceed? = some (.served id rows, l') ↔
    l.holder = none ∧ l.session.rows = some rows ∧
      ∃ rest, l.waiting = id :: rest ∧ l' = { l with waiting := rest } := by
  obtain ⟨s, holder, waiting⟩ := l
  cases holder with
  | some h => simp [proceed?]
  | none =>
      cases waiting with
      | nil => simp [proceed?]
      | cons id' rest =>
          cases hr : s.rows with
          | none => simp [proceed?, hr]
          | some kept =>
              simp only [proceed?, hr, Option.some.injEq, Prod.mk.injEq, LoadTurn.served.injEq,
                List.cons.injEq, true_and]
              constructor
              · rintro ⟨⟨rfl, rfl⟩, rfl⟩
                exact ⟨rfl, rest, ⟨rfl, rfl⟩, rfl⟩
              · rintro ⟨rfl, rest', ⟨rfl, rfl⟩, rfl⟩
                exact ⟨⟨rfl, rfl⟩, rfl⟩

theorem proceed_reads_iff : l.proceed? = some (.reads id, l') ↔
    l.holder = none ∧ l.session.rows = none ∧ ∃ rest, l.waiting = id :: rest ∧
      l' = { l with holder := some ⟨id, l.session.generation⟩, waiting := rest } := by
  obtain ⟨s, holder, waiting⟩ := l
  cases holder with
  | some h => simp [proceed?]
  | none =>
      cases waiting with
      | nil => simp [proceed?]
      | cons id' rest =>
          cases hr : s.rows with
          | some kept => simp [proceed?, hr]
          | none =>
              simp only [proceed?, hr, Option.some.injEq, Prod.mk.injEq, LoadTurn.reads.injEq,
                List.cons.injEq, true_and]
              constructor
              · rintro ⟨rfl, rfl⟩
                exact ⟨rest, ⟨rfl, rfl⟩, rfl⟩
              · rintro ⟨rest', ⟨rfl, rfl⟩, rfl⟩
                exact ⟨rfl, rfl⟩

theorem finish_eq {h : LoadHolder} (hh : l.holder = some h) (rows : List Row) :
    l.finish rows = { l with session := l.session.keepRows h.generation rows, holder := none } := by
  simp [finish, hh]

/-- The generation of a session is that of its history. -/
theorem Course.generation_eq (h : Course past l) : l.session.generation = generationOf past := by
  induction h with
  | start => rfl
  | event _ hstep ih =>
      cases hstep with
      | called id _ => rw [generationOf_concat_of_ne (by simp), ← ih]; rfl
      | invalidated => rw [generationOf_concat, ← ih]; rfl
      | served id rows l' hturn =>
          obtain ⟨-, -, rest, -, rfl⟩ := proceed_served_iff.mp hturn
          rw [generationOf_concat_of_ne (by simp), ← ih]
      | began id l' hturn =>
          obtain ⟨-, -, rest, -, rfl⟩ := proceed_reads_iff.mp hturn
          rw [generationOf_concat_of_ne (by simp), ← ih]
      | loaded h rows hh =>
          rw [generationOf_concat_of_ne (by simp), ← ih, finish_eq hh, Session.keepRows]
          split <;> rfl
      | failed h _ => rw [generationOf_concat_of_ne (by simp), ← ih]; rfl
      | cancelled id _ => rw [generationOf_concat_of_ne (by simp), ← ih]; rfl

/-- The holder of a session is the reading that is under way by its history. -/
theorem Course.readsIn_iff (h : Course past l) :
    ReadsIn past g j ↔ l.holder = some ⟨j, g⟩ := by
  induction h with
  | start => simp [not_readsIn_nil, Loads.start]
  | @event past l l' e h hstep ih =>
      rw [readsIn_concat, ih]
      cases hstep with
      | called id _ => simp [request, LoadEvent.over?]
      | invalidated => simp [invalidate, LoadEvent.over?]
      | served id rows l' hturn =>
          obtain ⟨hh, -, rest, -, rfl⟩ := proceed_served_iff.mp hturn
          simp [hh]
      | began id l' hturn =>
          obtain ⟨hh, -, rest, -, rfl⟩ := proceed_reads_iff.mp hturn
          simp [hh, h.generation_eq, LoadHolder.mk.injEq]
      | loaded r rows hh =>
          simp only [finish_eq hh, hh, LoadEvent.over?]
          grind
      | failed r hh =>
          simp only [fail, hh, LoadEvent.over?]
          grind
      | cancelled id _ =>
          simp only [cancel, LoadEvent.over?, Option.filter_eq_some_iff]
          grind

/-- While a reading is under way no rows are kept. -/
theorem Course.rows_of_reading (h : Course past l) (hr : l.session.rows = some rows) :
    l.holder = none := by
  induction h with
  | start => rfl
  | event _ hstep ih =>
      cases hstep with
      | called id _ => exact ih hr
      | invalidated => cases hr
      | served id rows l' hturn =>
          obtain ⟨hh, -, rest, -, rfl⟩ := proceed_served_iff.mp hturn
          exact hh
      | began id l' hturn =>
          obtain ⟨-, hnone, rest, -, rfl⟩ := proceed_reads_iff.mp hturn
          simp [hnone] at hr
      | loaded h rows hh => rw [finish_eq hh]
      | failed h _ => rfl
      | cancelled id _ =>
          rw [cancel, ih hr]
          rfl

/-- The rows that are kept are of the last reading that succeeded, and that began in the present
generation. -/
theorem Course.kept (h : Course past l) (hr : l.session.rows = some rows) :
    ∃ j, LoadedIn past (generationOf past) j rows := by
  induction h with
  | start => cases hr
  | @event past l l' e h hstep ih =>
      have hkept (hr : l.session.rows = some rows) (hi : e ≠ .invalidated)
          (hl : e.isLoad = false) :
          ∃ j, LoadedIn (past ++ [e]) (generationOf (past ++ [e])) j rows := by
        obtain ⟨j, hj⟩ := ih hr
        rw [generationOf_concat_of_ne hi]
        exact ⟨j, loadedIn_concat.mpr (Or.inr ⟨hj, hl⟩)⟩
      cases hstep with
      | called id _ => exact hkept hr (by simp) rfl
      | invalidated => cases hr
      | served id rows l' hturn =>
          obtain ⟨-, -, rest, -, rfl⟩ := proceed_served_iff.mp hturn
          exact hkept hr (by simp) rfl
      | began id l' hturn =>
          obtain ⟨-, -, rest, -, rfl⟩ := proceed_reads_iff.mp hturn
          exact hkept hr (by simp) rfl
      | loaded holder read hh =>
          -- the rows are kept only if the reading began in the present generation
          rw [finish_eq hh, Session.keepRows] at hr
          split at hr
          next hg =>
            obtain rfl := Option.some.inj hr
            refine ⟨holder.id, loadedIn_concat.mpr (Or.inl ⟨rfl, ?_⟩)⟩
            rw [generationOf_concat_of_ne (by simp), h.readsIn_iff, hh, ← h.generation_eq, hg]
          next =>
            have hnone := h.rows_of_reading hr
            rw [hh] at hnone
            cases hnone
      | failed h _ => exact hkept hr (by simp) rfl
      | cancelled id _ => exact hkept hr (by simp) rfl

/-- Every call that is not over has arrived. -/
theorem Course.called_of_pending (h : Course past l) (hp : id ∈ l.pending) :
    .called id ∈ past := by
  induction h with
  | start => cases hp
  | @event past l l' e h hstep ih =>
      have hearlier (hp : id ∈ l.pending) : .called id ∈ past ++ [e] :=
        List.mem_append_left _ (ih hp)
      cases hstep with
      | called id' _ =>
          have hcases : id ∈ l.pending ∨ id = id' := by
            simpa [pending, request, or_assoc] using hp
          obtain hp | rfl := hcases
          · exact hearlier hp
          · simp
      | invalidated => exact hearlier hp
      | served id' rows l' hturn =>
          obtain ⟨hh, -, rest, hw, rfl⟩ := proceed_served_iff.mp hturn
          refine hearlier ?_
          simp only [pending, hh, hw, Option.toList_none, List.map_nil, List.nil_append] at hp ⊢
          exact List.mem_cons_of_mem _ hp
      | began id' l' hturn =>
          obtain ⟨hh, -, rest, hw, rfl⟩ := proceed_reads_iff.mp hturn
          refine hearlier ?_
          simpa [pending, hh, hw] using hp
      | loaded holder read hh =>
          refine hearlier (List.mem_append_right _ ?_)
          simpa [pending, finish_eq hh] using hp
      | failed holder hh =>
          refine hearlier (List.mem_append_right _ ?_)
          simpa [pending, fail] using hp
      | cancelled id' _ =>
          refine hearlier ?_
          simp only [pending, cancel, List.mem_append, List.mem_map, Option.mem_toList,
            Option.filter_eq_some_iff, List.mem_filter] at hp ⊢
          exact hp.imp (fun ⟨r, hr, he⟩ => ⟨r, hr.1, he⟩) And.left

/-- A reading began after its call arrived. -/
theorem Course.called_le_of_readsIn (h : Course past l) (hr : ReadsIn past g j)
    (hc : CameIn past g' (.called j)) : g' ≤ g := by
  induction h with
  | start => exact (not_readsIn_nil hr).elim
  | @event past l l' e h hstep ih =>
      obtain ⟨rfl, rfl⟩ | ⟨hreads, -⟩ := readsIn_concat.mp hr
      · obtain hc | ⟨he, -⟩ := cameIn_concat.mp hc
        · exact hc.le
        · cases he
      · obtain hc | ⟨rfl, -⟩ := cameIn_concat.mp hc
        · exact ih hreads hc
        · -- a call that reads has arrived before and does not arrive again
          have hpending : j ∈ l.pending := by simp [pending, h.readsIn_iff.mp hreads]
          cases hstep with
          | called _ new => exact absurd (h.called_of_pending hpending) new

/-! ### What calls get -/

/-- A call gets the rows of a reading that began no earlier than the call arrived. -/
theorem Course.delivers (h : Course past l) (hstep : Step past l e l')
    (he : e.returned? = some (i, rows)) : ∃ g r j, Delivers past e g i r j rows ∧
      r ≤ g ∧ ∀ c, CameIn past c (.called i) → c ≤ r := by
  cases hstep with
  | served id kept l' hturn =>
      obtain ⟨rfl, rfl⟩ : id = i ∧ kept = rows := by simpa [LoadEvent.returned?] using he
      obtain ⟨-, hkept, -⟩ := proceed_served_iff.mp hturn
      obtain ⟨j, hj⟩ := h.kept hkept
      exact ⟨_, _, j, .kept id hj, Nat.le_refl _, fun c hc => hc.le⟩
  | loaded holder read hh =>
      obtain ⟨rfl, rfl⟩ : holder.id = i ∧ read = rows := by simpa [LoadEvent.returned?] using he
      have hr : ReadsIn past holder.generation holder.id := h.readsIn_iff.mpr hh
      exact ⟨_, _, _, .own read hr, Nat.le_refl _, fun c hc => h.called_le_of_readsIn hr hc⟩
  | _ => cases he

/-- What a call just got is kept if its turn was in the present generation, and no reading is
under way. -/
theorem Course.delivered_now (h : Course past l) (hstep : Step past l e l')
    (hd : Delivers past e g i r j rows) :
    (g = generationOf (past ++ [e]) →
      l'.session.rows = some rows ∧ LoadedIn (past ++ [e]) r j rows) ∧
      ∀ holder, l'.holder = some holder → holder.generation ≠ g := by
  cases hd with
  | kept i last =>
      cases hstep with
      | served i rows l' hturn =>
          obtain ⟨hh, hr, rest, -, rfl⟩ := proceed_served_iff.mp hturn
          exact ⟨fun _ => ⟨hr, loadedIn_concat.mpr (Or.inr ⟨last, rfl⟩)⟩, by simp [hh]⟩
  | own rows reads =>
      have hh := h.readsIn_iff.mp reads
      cases hstep with
      | loaded holder rows _ =>
          rw [finish_eq hh]
          refine ⟨fun hg => ⟨?_, loadedIn_concat.mpr (Or.inl ⟨rfl, reads⟩)⟩, by simp⟩
          rw [generationOf_concat_of_ne (by simp), ← h.generation_eq] at hg
          simp [Session.keepRows, hg]

/-- What a call has got in the present generation is still kept, and no reading is under way that
began in a generation in which a call got something. -/
theorem Course.delivered (h : Course past l) (hd : Delivered past g i r j rows) :
    (g = generationOf past → l.session.rows = some rows ∧ LoadedIn past r j rows) ∧
      ∀ holder, l.holder = some holder → holder.generation ≠ g := by
  induction h with
  | start =>
      obtain ⟨p, e, q, hnil, -⟩ := hd
      simp at hnil
  | @event past l l' e h hstep ih =>
      obtain hold | hnew := delivered_concat.mp hd
      · obtain ⟨hcurrent, hother⟩ := ih hold
        have hkept (hi : e ≠ .invalidated) (hl : e.isLoad = false)
            (hg : g = generationOf (past ++ [e])) :
            l.session.rows = some rows ∧ LoadedIn (past ++ [e]) r j rows := by
          rw [generationOf_concat_of_ne hi] at hg
          obtain ⟨hr, hload⟩ := hcurrent hg
          exact ⟨hr, loadedIn_concat.mpr (Or.inr ⟨hload, hl⟩)⟩
        cases hstep with
        | called id _ => exact ⟨hkept (by simp) rfl, hother⟩
        | invalidated =>
            refine ⟨fun hg => ?_, hother⟩
            have hle := hold.turn_le
            rw [hg, generationOf_concat, if_pos rfl] at hle
            exact absurd hle (Nat.not_succ_le_self _)
        | served id rows l' hturn =>
            obtain ⟨-, -, rest, -, rfl⟩ := proceed_served_iff.mp hturn
            exact ⟨hkept (by simp) rfl, hother⟩
        | began id l' hturn =>
            obtain ⟨-, hnone, rest, -, rfl⟩ := proceed_reads_iff.mp hturn
            refine ⟨fun hg => ?_, fun holder hh hg => ?_⟩
            · have hr := (hkept (by simp) rfl hg).1
              rw [hnone] at hr
              cases hr
            · obtain rfl := Option.some.inj hh
              have hr := (hcurrent (hg.symm.trans h.generation_eq)).1
              rw [hnone] at hr
              cases hr
        | loaded holder read hh =>
            rw [finish_eq hh]
            refine ⟨fun hg => ?_, by simp⟩
            rw [generationOf_concat_of_ne (by simp)] at hg
            have hnone := h.rows_of_reading (hcurrent hg).1
            rw [hh] at hnone
            cases hnone
        | failed holder _ => exact ⟨hkept (by simp) rfl, by simp [fail]⟩
        | cancelled id _ =>
            refine ⟨hkept (by simp) rfl, fun holder hh => hother holder ?_⟩
            exact (Option.filter_eq_some_iff.mp hh).1
      · exact h.delivered_now hstep hnew

/-- Calls that have their turns in one generation get the rows of one reading. -/
theorem Course.shared (h : Course past l) (hd : Delivered past g i r j rows)
    (hd' : Delivered past g k r' j' rows') : j = j' ∧ rows = rows' := by
  induction h with
  | start =>
      obtain ⟨p, e, q, hnil, -⟩ := hd
      simp at hnil
  | @event past l l' e h hstep ih =>
      have hlate {i k j j' : LoadId} {r r' : Nat} {rows rows' : List Row}
          (hold : Delivered past g i r j rows) (hnew : Delivers past e g k r' j' rows') :
          j = j' ∧ rows = rows' := by
        have hcurrent := h.delivered hold
        cases hnew with
        | kept _ last => exact (hcurrent.1 rfl).2.unique last
        | own _ reads => exact (hcurrent.2 _ (h.readsIn_iff.mp reads) rfl).elim
      obtain hd | hd := delivered_concat.mp hd
      · obtain hd' | hd' := delivered_concat.mp hd'
        · exact ih hd hd'
        · exact hlate hd hd'
      · obtain hd' | hd' := delivered_concat.mp hd'
        · obtain ⟨hj, hrows⟩ := hlate hd' hd
          exact ⟨hj.symm, hrows.symm⟩
        · cases hd with
          | kept i last =>
              cases hd' with
              | kept _ last' => exact last.unique last'
          | own rows reads =>
              cases hd' with
              | own _ _ => exact ⟨rfl, rfl⟩

/-! ### What calls wait for -/

/-- A reading that fails or is given up leaves the session as it was, and the turn to the calls
that wait. -/
theorem Step.unharmed (hstep : Step past l e l') (he : e = .failed j ∨ e = .cancelled j) :
    l'.session = l.session ∧ (l.holder.map (·.id) = some j → l'.holder = none) := by
  obtain rfl | rfl := he
  · cases hstep with
    | failed => exact ⟨rfl, fun _ => rfl⟩
  · cases hstep with
    | cancelled =>
        refine ⟨rfl, fun hj => ?_⟩
        obtain ⟨holder, hh, rfl⟩ := Option.map_eq_some_iff.mp hj
        simp [cancel, hh]

/-- While no reading is under way, the first call that waits can take its turn; and if no rows are
kept, it can read. -/
theorem exists_turn (past : List LoadEvent) {rest : List LoadId} (hh : l.holder = none)
    (hw : l.waiting = id :: rest) : ∃ e l', Step past l e l' ∧ e.turn? = some id ∧
      (l.session.rows = none → e = .began id) ∧ l'.waiting = rest := by
  cases hr : l.session.rows with
  | none =>
      exact ⟨_, _, .began id _ (proceed_reads_iff.mpr ⟨hh, hr, rest, hw, rfl⟩), rfl,
        fun _ => rfl, rfl⟩
  | some rows =>
      exact ⟨_, _, .served id rows _ (proceed_served_iff.mpr ⟨hh, hr, rest, hw, rfl⟩), rfl,
        by simp, rfl⟩

theorem Course.freed (h : Course past l) : ∃ later l', Course (past ++ later) l' ∧
    l'.holder = none ∧ l'.waiting = l.waiting := by
  cases hh : l.holder with
  | none => exact ⟨[], l, by simpa using h, hh, rfl⟩
  | some holder => exact ⟨[.failed holder.id], l.fail, h.event (.failed holder hh), rfl, rfl⟩

/-- Every call that waits can come to its turn. -/
theorem Course.turn_of_waiting (h : Course past l) {n : Nat} (hn : l.waiting[n]? = some id) :
    ∃ later l', Course (past ++ later) l' ∧ ∃ e ∈ later, e.turn? = some id := by
  induction n generalizing past l with
  | zero =>
      obtain ⟨freed, l₀, h₀, hh, hw⟩ := h.freed
      obtain ⟨rest, hrest⟩ : ∃ rest, l.waiting = id :: rest := by
        cases hl : l.waiting with
        | nil => simp [hl] at hn
        | cons first rest =>
            rw [hl, List.getElem?_cons_zero, Option.some.injEq] at hn
            exact ⟨rest, by rw [hn]⟩
      obtain ⟨e, l', hstep, hturn, -⟩ := exists_turn (past ++ freed) hh (hw.trans hrest)
      refine ⟨freed ++ [e], l', ?_, e, by simp, hturn⟩
      rw [← List.append_assoc]
      exact h₀.event hstep
  | succ n ih =>
      obtain ⟨freed, l₀, h₀, hh, hw⟩ := h.freed
      cases hl : l.waiting with
      | nil => simp [hl] at hn
      | cons first rest =>
          obtain ⟨e, l', hstep, -, -, hrest⟩ := exists_turn (past ++ freed) hh (hw.trans hl)
          rw [hl, List.getElem?_cons_succ, ← hrest] at hn
          obtain ⟨later, l'', h'', e', he', hturn⟩ := ih (h₀.event hstep) hn
          refine ⟨freed ++ [e] ++ later, l'', ?_, e', List.mem_append_right _ he', hturn⟩
          simpa using h''

/-- What the history of a session says of its rows, once it has led to some calls and rows. -/
structure RowsFresh (past : List LoadEvent) (l : Loads) : Prop where
  /-- Rows that are returned are of a reading that began after every invalidation before the call.
  The call had its turn when the reading began, or later, and before it returned. -/
  returned : ∀ p e q i rows, past = p ++ e :: q → e.returned? = some (i, rows) →
    ∃ g r j, Delivers p e g i r j rows ∧ (∀ c, CameIn p c (.called i) → c ≤ r) ∧
      r ≤ g ∧ g ≤ generationOf p
  /-- Rows that are kept are of a reading that began after every invalidation. -/
  kept : ∀ rows, l.session.rows = some rows → ∃ j, LoadedIn past (generationOf past) j rows
  /-- One reading is under way at a time. -/
  single : ∀ g j g' k, ReadsIn past g j → ReadsIn past g' k → j = k ∧ g = g'
  /-- Calls that have their turns in one generation share a reading. -/
  shared : ∀ g i r j rows k r' j' rows', Delivered past g i r j rows →
    Delivered past g k r' j' rows' → j = j' ∧ rows = rows'
  /-- A reading that fails or is given up leaves the session as it was. -/
  unharmed : ∀ e l' j, Step past l e l' → e = .failed j ∨ e = .cancelled j →
    l'.session = l.session ∧ (∀ g, ReadsIn past g j → l'.holder = none)
  /-- A new call can arrive at any time. -/
  arrives : ∀ id, .called id ∉ past → Step past l (.called id) (l.request id)
  /-- The first call that waits can take its turn when no reading is under way, and read if no rows
  are kept. -/
  first : ∀ id rest, l.holder = none → l.waiting = id :: rest → ∃ e l', Step past l e l' ∧
    e.turn? = some id ∧ (l.session.rows = none → e = .began id)
  /-- Every call that waits can come to its turn. -/
  reached : ∀ id ∈ l.waiting, ∃ later l', Course (past ++ later) l' ∧
    ∃ e ∈ later, e.turn? = some id

/-- Whatever calls, readings and invalidations come in whatever order, rows are never stale. -/
theorem rows_fresh (h : Course past l) : RowsFresh past l where
  returned p e q i rows hpast he := by
    induction h generalizing q with
    | start => simp at hpast
    | event h hstep ih =>
        obtain ⟨rfl, rfl, rfl⟩ | ⟨q', rfl, rfl⟩ := concat_eq_append_cons.mp hpast
        · obtain ⟨g, r, j, hd, hrg, hc⟩ := h.delivers hstep he
          exact ⟨g, r, j, hd, hc, hrg, hd.turn_le⟩
        · exact ih q' rfl
  kept rows hr := h.kept hr
  single g j g' k hj hk := by
    have heq := (h.readsIn_iff.mp hj).symm.trans (h.readsIn_iff.mp hk)
    simpa using heq
  shared g i r j rows k r' j' rows' hd hd' := h.shared hd hd'
  unharmed e l' j hstep he := by
    obtain ⟨hs, hh⟩ := hstep.unharmed he
    refine ⟨hs, fun g hr => hh ?_⟩
    rw [h.readsIn_iff.mp hr]
    rfl
  arrives id new := .called id new
  first id rest hh hw := by
    obtain ⟨e, l', hstep, hturn, hread, -⟩ := exists_turn past hh hw
    exact ⟨e, l', hstep, hturn, hread⟩
  reached id hid := by
    obtain ⟨n, hn⟩ := List.mem_iff_getElem?.mp hid
    exact h.turn_of_waiting hn

/-- The rows before a change. -/
def oldRows : List Row :=
  [⟨1, "r1", [("code", "A1")], none, none⟩]

/-- The rows after the change. -/
def newRows : List Row :=
  [⟨1, "r1", [("code", "B2")], none, none⟩]

/-- A reading across an invalidation, one that fails, one that is kept, and one call that is
served. -/
def lateReading : List LoadEvent :=
  [.called 0, .began 0, .called 1, .called 2, .invalidated, .loaded 0 oldRows, .began 1, .failed 1,
    .began 2, .called 3, .loaded 2 newRows, .served 3 newRows]

/-- The rows after the change are kept. -/
def lateLoads : Loads :=
  ⟨{ Session.fresh with generation := 1, rows := some newRows }, none, []⟩

theorem lateReading_course : Course lateReading lateLoads :=
  .event (.event (.event (.event (.event (.event (.event (.event (.event (.event (.event (.event
    .start (.called 0 (by decide))) (.began 0 _ rfl)) (.called 1 (by decide)))
    (.called 2 (by decide))) .invalidated) (.loaded ⟨0, 0⟩ oldRows rfl)) (.began 1 _ rfl))
    (.failed ⟨1, 1⟩ rfl)) (.began 2 _ rfl)) (.called 3 (by decide)))
    (.loaded ⟨2, 1⟩ newRows rfl)) (.served 3 newRows _ rfl)

theorem lateReading_fresh : Course lateReading lateLoads ∧
    ∃ j, LoadedIn lateReading 1 j newRows :=
  ⟨lateReading_course, (rows_fresh lateReading_course).kept newRows rfl⟩

end Loads

end TableAudit
