import TableAudit.Proofs.Cell.Texts
import TableAudit.Proofs.Defaults.Scripted

/-!
# Populating twice

A table that keeps what was written to it holds, after populating without a failure, a cell that is
not blank wherever a column stores a default that is not blank. So populating again writes nothing
for these columns. A cell may be shared by a column of single selects and one of another type, which
read it differently; then a blank default of the one may undo the default of the other.
-/

namespace TableAudit.Defaults

variable {c : Column} {d v payload : Value} {text : String} {t t' : ColumnType}

/-! ### What is stored for a default -/

/-- The types whose columns can hold a default. -/
def TakesDefault (t : ColumnType) : Prop :=
  t = .text ∨ t = .number ∨ t = .singleSelect

/-- What is stored for a default in a column of a type. -/
inductive Stored : ColumnType → Value → Prop
  | text (s : String) : Stored .text (.text s)
  | zero : Stored .number (.int 0)
  | number (x : Number.Binary64) : Stored .number (.float x)
  | option (id : Value) (name : String) :
      Stored .singleSelect (.object [("id", id), ("text", .text name)])

theorem Stored.type_unique (h : Stored t v) (h' : Stored t' v) : t = t' := by
  cases h <;> cases h' <;> rfl

theorem Stored.takesDefault (h : Stored t v) : TakesDefault t := by
  cases h with
  | text => exact .inl rfl
  | zero => exact .inr (.inl rfl)
  | number => exact .inr (.inl rfl)
  | option => exact .inr (.inr rfl)

/-- An option that is stored with a name has the name as its text, whatever the column. -/
theorem writtenText_option (ht : TakesDefault t) (id : Value) (name : String) :
    Cell.writtenText t (.object [("id", id), ("text", .text name)]) = .ok name := by
  have hlabel : Cell.firstOf [.text name, .null] "" = .text name := by
    by_cases hname : name = ""
    · rw [hname]
      rfl
    · have htruthy : (Value.text name).isTruthy = true := by simp [Value.isTruthy, hname]
      rw [Cell.firstOf, List.find?_cons_of_pos htruthy]
      rfl
  have hwritten : Cell.written (.singleSelect ⟨id, Cell.firstOf [.text name, .null] ""⟩) =
      .ok name := by
    rw [hlabel]
    rfl
  obtain rfl | rfl | rfl := ht <;> exact hwritten

/-- In all columns that can hold a default, what is stored for one has the same text. -/
theorem Stored.text_eq (h : Stored t v) : ∃ text, ∀ t', TakesDefault t' →
    Cell.writtenText t' v = .ok text := by
  cases h with
  | text s =>
      refine ⟨s, fun t' ht' => ?_⟩
      obtain rfl | rfl | rfl := ht' <;> rfl
  | zero =>
      refine ⟨"0", fun t' ht' => ?_⟩
      obtain rfl | rfl | rfl := ht' <;> rfl
  | number x =>
      refine ⟨(Cell.number (.float x)).normal, fun t' ht' => ?_⟩
      obtain rfl | rfl | rfl := ht' <;> rfl
  | option id name => exact ⟨name, fun t' ht' => writtenText_option ht' id name⟩

theorem ofPayload_text_number (payload : Value) :
    Cell.ofPayload .text payload = Cell.ofPayload .number payload := by
  cases payload with
  | list items => cases items <;> rfl
  | tuple items => cases items <;> rfl
  | _ => rfl

/-- Columns of different types read a cell alike unless one is of single selects. -/
theorem writtenText_alike (ht : TakesDefault t) (ht' : TakesDefault t')
    (h : t = .singleSelect ↔ t' = .singleSelect) (payload : Value) :
    Cell.writtenText t payload = Cell.writtenText t' payload := by
  rw [Cell.writtenText, Cell.writtenText]
  obtain rfl | rfl | rfl := ht <;> obtain rfl | rfl | rfl := ht'
  · rfl
  · rw [ofPayload_text_number]
  · cases h.mpr rfl
  · rw [ofPayload_text_number]
  · rfl
  · cases h.mpr rfl
  · cases h.mp rfl
  · cases h.mp rfl
  · rfl

theorem eq_text_of_eqv {o : Value} (h : o.eqv (.text text) = true) : o = .text text := by
  cases o with
  | text s =>
      rw [Value.eqv, beq_iff_eq] at h
      rw [h]
  | _ => simp [Value.eqv] at h

theorem optionCell_ok {name : String} {options : List Value}
    (h : optionCell name text options = .ok v) :
    ∃ id, v = .object [("id", id), ("text", .text text)] := by
  induction options with
  | nil => cases h
  | cons o rest ih =>
      rw [optionCell] at h
      split at h
      next =>
        split at h
        next hname =>
          obtain rfl := Except.ok.inj h
          exact ⟨o.get "id", by rw [eq_text_of_eqv hname]⟩
        next => exact ih h
      next => cases h

theorem numberCell_ok (h : numberCell d text = .ok v) : Stored .number v := by
  rw [numberCell] at h
  split at h
  next =>
    split at h
    next => cases h; exact .number _
    next => cases h
  next =>
    split at h
    next => cases h; exact .number _
    next => cases h; exact .zero

theorem Stored.of_cellValueOf (h : cellValueOf c d text = .ok v) : Stored c.type v := by
  rw [cellValueOf] at h
  split at h
  next htype =>
    obtain rfl := Except.ok.inj h
    exact htype ▸ .text text
  next htype =>
    cases hcell : numberCell d text with
    | error f => rw [hcell] at h; cases h
    | ok w =>
        rw [hcell] at h
        obtain rfl := Except.ok.inj h
        exact htype ▸ numberCell_ok hcell
  next htype =>
    split at h
    next =>
      obtain ⟨id, rfl⟩ := optionCell_ok h
      exact htype ▸ .option id text
    next => cases h
  next => cases h

/-- A number has a text that is not blank, and what else is stored has the text of the default. -/
theorem writtenText_cellValueOf (h : cellValueOf c d text = .ok v) :
    ∃ s, Cell.writtenText c.type v = .ok s ∧ (s = text ∨ Text.isBlankText s = false) := by
  have hstored := Stored.of_cellValueOf h
  rw [cellValueOf] at h
  split at h
  next htype =>
    obtain rfl := Except.ok.inj h
    exact ⟨text, by rw [htype]; rfl, .inl rfl⟩
  next htype =>
    rw [htype] at hstored ⊢
    cases hstored with
    | zero => exact ⟨"0", rfl, .inr rfl⟩
    | number x => exact ⟨_, rfl, .inr (Cell.isBlankText_number _)⟩
  next htype =>
    split at h
    next =>
      obtain ⟨id, rfl⟩ := optionCell_ok h
      exact ⟨text, writtenText_option hstored.takesDefault id text, .inl rfl⟩
    next => cases h
  next => cases h

theorem HasDefault.cellValueOf (h : HasDefault c v) : ∃ d text, declared? c = .ok (some d) ∧
    defaultText d = .ok text ∧ cellValueOf c d text = .ok v := by
  obtain ⟨d, hd, hv⟩ := h
  rw [cellValue] at hv
  split at hv
  next text htext => exact ⟨d, text, hd, htext, hv⟩
  next => cases hv

theorem HasDefault.stored (h : HasDefault c v) : Stored c.type v := by
  obtain ⟨d, text, -, -, hv⟩ := h.cellValueOf
  exact .of_cellValueOf hv

/-! ### Targets that stay as they are -/

namespace Target

/-- The default that the column's rule declares has a text that is not blank. -/
def HasText (t : Target) : Prop :=
  ∃ d text, declared? t.column = .ok (some d) ∧ defaultText d = .ok text ∧
    Text.isBlankText text = false

/-- What is stored for the default reads as a blank. -/
def StoresBlank (t : Target) : Prop :=
  ∃ text, Cell.writtenText t.column.type t.value = .ok text ∧ Text.isBlankText text = true

/-- Of the columns with the same identifier, those that store a blank are of single selects exactly
if the column is. -/
def Undisturbed (ts : List Target) (t : Target) : Prop :=
  ∀ t' ∈ ts, t'.column.id = t.column.id → t'.StoresBlank →
    (t'.column.type = .singleSelect ↔ t.column.type = .singleSelect)

theorem HasText.not_storesBlank {t : Target} (h : t.HasText) (hv : HasDefault t.column t.value) :
    ¬ t.StoresBlank := by
  obtain ⟨d, text, hd, htext, hblank⟩ := h
  obtain ⟨d', text', hd', htext', hvalue⟩ := hv.cellValueOf
  obtain rfl := Option.some.inj (Except.ok.inj (hd.symm.trans hd'))
  obtain rfl := Except.ok.inj (htext.symm.trans htext')
  obtain ⟨s, hs, hsame⟩ := writtenText_cellValueOf hvalue
  rintro ⟨s', hs', hblank'⟩
  obtain rfl := Except.ok.inj (hs.symm.trans hs')
  obtain rfl | hfull := hsame
  · exact Bool.false_ne_true (hblank.symm.trans hblank')
  · exact Bool.false_ne_true (hfull.symm.trans hblank')

end Target

/-! ### Tables that keep what is written -/

/-- The table holds contents, which are what is read. Only writing changes them: a write that
succeeds stores the value, and one that does not may have stored it. -/
structure Stores (table : List Exchange → TableCall → TableReply)
    (contents : List Exchange → Place → Value) : Prop where
  read : ∀ log columnId recordId payload,
    table log (.cell columnId recordId) = .cell payload →
      payload = contents log ⟨columnId, recordId⟩
  kept : ∀ log columnId recordId,
    contents (log ++ [⟨.cell columnId recordId, table log (.cell columnId recordId)⟩]) =
      contents log
  accepted : ∀ log columnId recordId value,
    table log (.setCell columnId recordId value) = .stored true →
      contents (log ++ [⟨.setCell columnId recordId value, .stored true⟩]) =
        Function.update (contents log) ⟨columnId, recordId⟩ value
  tried : ∀ log columnId recordId value,
    let c := TableCall.setCell columnId recordId value
    contents (log ++ [⟨c, table log c⟩]) = contents log ∨
      contents (log ++ [⟨c, table log c⟩]) =
        Function.update (contents log) ⟨columnId, recordId⟩ value

namespace ScriptedTable

theorem payload_cons (t : ScriptedTable) (place : Place) (value : Value) :
    ScriptedTable.payload { t with cells := (place, value) :: t.cells } =
      Function.update t.payload place value := by
  funext p
  by_cases hp : p = place
  · simp [ScriptedTable.payload, hp]
  · simp [ScriptedTable.payload, List.lookup_cons, Function.update_of_ne hp, beq_false_of_ne hp]

/-- A write that succeeds stores the value, and one that does not changes no cell. -/
theorem payload_setCell (t : ScriptedTable) (columnId recordId : String) (value : Value) :
    ((t.reply (.setCell columnId recordId value)).1 = .stored true ∧
        (t.reply (.setCell columnId recordId value)).2.payload =
          Function.update t.payload ⟨columnId, recordId⟩ value) ∨
      ((t.reply (.setCell columnId recordId value)).1 ≠ .stored true ∧
        (t.reply (.setCell columnId recordId value)).2.payload = t.payload) := by
  rw [reply]
  obtain ⟨outcome, writes⟩ := takeOutcome ⟨columnId, recordId⟩ t.writes
  cases outcome with
  | accepted => exact .inl ⟨rfl, payload_cons _ _ _⟩
  | refused => exact .inr ⟨by simp, rfl⟩
  | failed message => exact .inr ⟨by simp, rfl⟩

/-- A scripted table keeps what is written. -/
theorem stores (t : ScriptedTable) : Stores t.replies fun log => (t.after log).payload where
  read log columnId recordId payload h := by
    rw [replies, reply] at h
    split at h
    next => cases h
    next => exact (TableReply.cell.inj h).symm
  kept log columnId recordId := by
    rw [after_concat, reply_cell]
  accepted log columnId recordId value h := by
    rw [after_concat]
    obtain ⟨-, hwritten⟩ | ⟨hrejected, -⟩ :=
      (t.after log).payload_setCell columnId recordId value
    · exact hwritten
    · exact absurd h hrejected
  tried log columnId recordId value := by
    dsimp only
    rw [after_concat]
    exact ((t.after log).payload_setCell columnId recordId value).symm.imp (·.2) (·.2)

end ScriptedTable

/-- The place of the cell. -/
def Spot.place (s : Spot) : Place :=
  ⟨s.target.column.id, s.recordId⟩

section Runs

variable {table : List Exchange → TableCall → TableReply} {contents : List Exchange → Place → Value}
variable {policy policy' : RetryPolicy} {before log : List Exchange} {s s' : Spot} {visit : Visit}
variable {spots : List Spot} {failures : List WriteFailure} {ts : List Target}
variable {columns : List Column} {ids : List String}

theorem Answered.of_append (h : Answered table (before ++ log)) : Answered table before := by
  intro earlier x later heq
  refine h earlier x (later ++ log) ?_
  rw [heq, List.append_assoc, List.cons_append]

theorem Answered.reply {x : Exchange} (h : Answered table (before ++ [x])) :
    x.reply = table before x.call :=
  h before x [] rfl

/-- Attempts to write to a cell change nothing but the cell. -/
theorem Stores.after_writes (hstores : Stores table contents) (hcalls : ∀ x ∈ log, x.call = s.write)
    (h : Answered table (before ++ log)) :
    contents (before ++ log) = contents before ∨
      contents (before ++ log) = Function.update (contents before) s.place s.target.value := by
  induction log using List.reverseRecOn with
  | nil => exact .inl (by rw [List.append_nil])
  | append_singleton log x ih =>
      rw [← List.append_assoc] at h ⊢
      obtain ⟨hlog, hx⟩ := List.forall_mem_append.mp hcalls
      obtain ⟨call, reply⟩ := x
      obtain rfl : call = s.write := hx _ (List.mem_singleton_self _)
      obtain rfl : reply = table (before ++ log) s.write := h.reply
      have htried := hstores.tried (before ++ log) s.target.column.id s.recordId s.target.value
      obtain hsame | hwritten := ih hlog h.of_append
      · rw [← hsame]
        exact htried
      · right
        obtain hnone | hagain := htried
        · exact hnone.trans hwritten
        · refine hagain.trans ?_
          rw [hwritten]
          exact Function.update_idem ..

/-- Reading a cell changes nothing. -/
theorem Stores.after_read {reply : TableReply} (hstores : Stores table contents)
    (h : Answered table (before ++ [⟨s.read, reply⟩])) :
    contents (before ++ [⟨s.read, reply⟩]) = contents before ∧
      ∀ payload, reply = .cell payload → payload = contents before s.place := by
  obtain rfl : reply = table before s.read := h.reply
  exact ⟨hstores.kept before _ _, hstores.read before _ _⟩

theorem Writing.call_eq {w : Writing} {x : Exchange} (hx : x ∈ w.log s) : x.call = s.write := by
  cases w with
  | stored rejections =>
      obtain hx | hx := List.mem_append.mp hx
      · obtain ⟨r, -, rfl⟩ := List.mem_map.mp hx
        rfl
      · rw [List.mem_singleton.mp hx]
  | lost rejections last =>
      obtain hx | hx := List.mem_append.mp hx
      · obtain ⟨r, -, rfl⟩ := List.mem_map.mp hx
        rfl
      · rw [List.mem_singleton.mp hx]

/-- A visit changes nothing but the cell, and that only if it was blank. -/
theorem Stores.after_visit (hstores : Stores table contents) (hv : visit.Follows policy s)
    (h : Answered table (before ++ visit.log s)) :
    contents (before ++ visit.log s) = contents before ∨
      s.IsBlank (contents before s.place) ∧ contents (before ++ visit.log s) =
        Function.update (contents before) s.place s.target.value := by
  cases visit with
  | unread message => exact .inl (hstores.after_read h).1
  | kept payload => exact .inl (hstores.after_read h).1
  | written payload w =>
      rw [Visit.log, List.append_cons] at h ⊢
      obtain ⟨hsame, hpayload⟩ := hstores.after_read h.of_append
      rw [← hpayload payload rfl, ← hsame]
      exact (hstores.after_writes (fun x => Writing.call_eq) h).imp_right fun hw => ⟨hv.1, hw⟩

/-- After a visit without a failure the cell is not blank or holds the default. -/
theorem Stores.after_success (hstores : Stores table contents) (hv : visit.Follows policy s)
    (h : Answered table (before ++ visit.log s)) (hfailures : visit.failures s = []) :
    s.IsFilled (contents (before ++ visit.log s) s.place) ∨
      contents (before ++ visit.log s) s.place = s.target.value := by
  cases visit with
  | unread message => cases hfailures
  | kept payload =>
      obtain ⟨hsame, hpayload⟩ := hstores.after_read h
      rw [Visit.log, hsame, ← hpayload payload rfl]
      exact .inl hv
  | written payload w =>
      cases w with
      | lost rejections last => cases hfailures
      | stored rejections =>
          right
          rw [Visit.log, Writing.log, List.append_cons, ← List.append_assoc] at h ⊢
          have haccepted := hstores.accepted _ s.target.column.id s.recordId s.target.value
            h.reply.symm
          exact (congrFun haccepted s.place).trans (Function.update_self ..)

/-! ### Filled cells stay filled -/

/-- A target whose column holds its default, stores no blank for it, and is undisturbed. -/
structure Settled (ts : List Target) (t : Target) : Prop where
  holds : HasDefault t.column t.value
  full : ¬ t.StoresBlank
  undisturbed : t.Undisturbed ts

theorem Spot.not_filled_of_blank (h : s.IsBlank payload) : ¬ s.IsFilled payload := by
  rintro ⟨text, htext, hfull⟩
  obtain ⟨text', htext', hblank⟩ := h
  obtain rfl := Except.ok.inj (htext.symm.trans htext')
  exact Bool.false_ne_true (hfull.symm.trans hblank)

/-- What is stored for a default is filled for any column that can hold one, unless it is blank. -/
theorem isFilled_of_stored {t : Target} (hs : Stored s.target.column.type v)
    (ht : Stored t.column.type t.value) (hfull : ¬ t.StoresBlank) : s.IsFilled t.value := by
  obtain ⟨text, htext⟩ := ht.text_eq
  refine ⟨text, htext _ hs.takesDefault, Bool.eq_false_iff.mpr fun hblank => ?_⟩
  exact hfull ⟨text, htext _ ht.takesDefault, hblank⟩

/-- A visit to any cell leaves the cell of a settled target filled. -/
theorem Stores.filled_after_visit (hstores : Stores table contents) (hs : Settled ts s.target)
    (hs' : s'.target ∈ ts) (hv' : HasDefault s'.target.column s'.target.value)
    (hv : visit.Follows policy s') (h : Answered table (before ++ visit.log s'))
    (hfilled : s.IsFilled (contents before s.place)) :
    s.IsFilled (contents (before ++ visit.log s') s.place) := by
  obtain hsame | ⟨hblank, hupdate⟩ := hstores.after_visit hv h
  · rwa [hsame]
  · rw [hupdate]
    by_cases hplace : s.place = s'.place
    · rw [hplace, Function.update_self]
      refine isFilled_of_stored hs.holds.stored hv'.stored fun hempty => ?_
      -- the two columns read the cell alike, so it is not blank for one and filled for the other
      obtain ⟨hid, -⟩ := Place.mk.inj hplace
      have hkind := hs.undisturbed s'.target hs' hid.symm hempty
      have halike := writtenText_alike hv'.stored.takesDefault hs.holds.stored.takesDefault hkind
      rw [hplace] at hfilled
      obtain ⟨text, htext, hfull⟩ := hfilled
      exact Spot.not_filled_of_blank hblank ⟨text, (halike _).trans htext, hfull⟩
    · rwa [Function.update_of_ne hplace]

/-! ### One run after another -/

/-- Visits to any cells leave the cell of a settled target filled. -/
theorem Stores.filled_after_course (hstores : Stores table contents) (hs : Settled ts s.target)
    (hts : ∀ t ∈ ts, HasDefault t.column t.value) (hspots : ∀ s' ∈ spots, s'.target ∈ ts)
    (hcourse : Course policy spots log failures) (h : Answered table (before ++ log))
    (hfilled : s.IsFilled (contents before s.place)) :
    s.IsFilled (contents (before ++ log) s.place) := by
  induction hcourse generalizing before with
  | nil => rwa [List.append_nil]
  | cons hv _ ih =>
      obtain ⟨hs', hrest⟩ := List.forall_mem_cons.mp hspots
      rw [← List.append_assoc] at h ⊢
      exact ih hrest h (hstores.filled_after_visit hs hs' (hts _ hs') hv h.of_append hfilled)

/-- After visits without a failure the cells of settled targets are filled. -/
theorem Stores.filled_after_success (hstores : Stores table contents)
    (hts : ∀ t ∈ ts, HasDefault t.column t.value) (hspots : ∀ s' ∈ spots, s'.target ∈ ts)
    (hcourse : Course policy spots log failures) (h : Answered table (before ++ log))
    (hfailures : failures = []) :
    ∀ s ∈ spots, Settled ts s.target → s.IsFilled (contents (before ++ log) s.place) := by
  induction hcourse generalizing before with
  | nil => exact List.forall_mem_nil _
  | cons hv tail ih =>
      obtain ⟨hs, hrest⟩ := List.forall_mem_cons.mp hspots
      obtain ⟨hfirst, hlater⟩ := List.append_eq_nil_iff.mp hfailures
      rw [← List.append_assoc] at h ⊢
      refine List.forall_mem_cons.mpr ⟨fun hsettled => ?_, ih hrest h hlater⟩
      refine hstores.filled_after_course hsettled hts hrest tail h ?_
      obtain hfilled | hvalue := hstores.after_success hv h.of_append hfirst
      · exact hfilled
      · rw [hvalue]
        exact isFilled_of_stored hsettled.holds.stored hsettled.holds.stored hsettled.full

/-- A question reads one of the cells, or writes to one whose target is not settled. -/
def Idle (ts : List Target) (spots : List Spot) (c : TableCall) : Prop :=
  ∃ s ∈ spots, c = s.read ∨ c = s.write ∧ ¬ Settled ts s.target

theorem Idle.mono {c : TableCall} {more : List Spot} (h : Idle ts spots c) (hsub : spots ⊆ more) :
    Idle ts more c := by
  obtain ⟨s, hs, hc⟩ := h
  exact ⟨s, hsub hs, hc⟩

/-- A visit to a cell that is filled, if its target is settled, writes nothing for a settled one. -/
theorem Stores.idle_visit (hstores : Stores table contents) (hv : visit.Follows policy s)
    (h : Answered table (before ++ visit.log s))
    (hfilled : Settled ts s.target → s.IsFilled (contents before s.place)) :
    ∀ x ∈ visit.log s, Idle ts [s] x.call := by
  have hread (reply : TableReply) : Idle ts [s] (Exchange.mk s.read reply).call :=
    ⟨s, List.mem_singleton_self s, .inl rfl⟩
  cases visit with
  | unread message => exact List.forall_mem_singleton.mpr (hread _)
  | kept payload => exact List.forall_mem_singleton.mpr (hread _)
  | written payload w =>
      rw [Visit.log, List.append_cons] at h
      have hpayload := (hstores.after_read h.of_append).2 payload rfl
      have hunsettled (hs : Settled ts s.target) : False :=
        Spot.not_filled_of_blank (hpayload ▸ hv.1) (hfilled hs)
      refine List.forall_mem_cons.mpr ⟨hread _, fun x hx => ?_⟩
      exact ⟨s, List.mem_singleton_self s, .inr ⟨Writing.call_eq hx, hunsettled⟩⟩

/-- Where the cells of settled targets are filled, visits write nothing for these. -/
theorem Stores.idle_course (hstores : Stores table contents)
    (hts : ∀ t ∈ ts, HasDefault t.column t.value) (hspots : ∀ s' ∈ spots, s'.target ∈ ts)
    (hcourse : Course policy spots log failures) (h : Answered table (before ++ log))
    (hfilled : ∀ s ∈ spots, Settled ts s.target → s.IsFilled (contents before s.place)) :
    ∀ x ∈ log, Idle ts spots x.call := by
  -- What is filled before a visit is filled after it, so the same holds of the cells that follow.
  induction hcourse generalizing before with
  | nil => exact List.forall_mem_nil _
  | cons hv _ ih =>
      obtain ⟨hs, hrest⟩ := List.forall_mem_cons.mp hspots
      obtain ⟨hfirst, hlater⟩ := List.forall_mem_cons.mp hfilled
      rw [← List.append_assoc] at h
      refine List.forall_mem_append.mpr ⟨fun x hx => ?_, fun x hx => ?_⟩
      · have hidle := hstores.idle_visit hv h.of_append hfirst x hx
        exact hidle.mono (List.cons_subset.mpr ⟨List.mem_cons_self, List.nil_subset _⟩)
      · refine (ih hrest h (fun s' hs' hsettled => ?_) x hx).mono (List.subset_cons_self _ _)
        exact hstores.filled_after_visit hsettled hs (hts _ hs) hv h.of_append
          (hlater s' hs' hsettled)

/-- The same holds if the visits break off. -/
theorem Stores.idle_breaksOff {f : Fault} (hstores : Stores table contents)
    (hts : ∀ t ∈ ts, HasDefault t.column t.value) (hspots : ∀ s' ∈ spots, s'.target ∈ ts)
    (hbreaks : BreaksOff policy spots log f) (h : Answered table (before ++ log))
    (hfilled : ∀ s ∈ spots, Settled ts s.target → s.IsFilled (contents before s.place)) :
    ∀ x ∈ log, Idle ts spots x.call := by
  obtain ⟨visited, s, rest, earlier, failures, payload, rfl, hcourse, rfl, -⟩ := hbreaks
  have hsub : visited ⊆ visited ++ s :: rest := List.subset_append_left _ _
  rw [← List.append_assoc] at h
  refine List.forall_mem_append.mpr ⟨fun x hx => ?_, List.forall_mem_singleton.mpr ?_⟩
  · exact (hstores.idle_course hts (fun s' hs' => hspots s' (hsub hs')) hcourse h.of_append
      (fun s' hs' => hfilled s' (hsub hs')) x hx).mono hsub
  · exact ⟨s, List.mem_append_cons_self, .inl rfl⟩

/-- Targets that write the same to the same cell are settled alike. -/
theorem Settled.of_write_eq (hs : Settled ts s.target)
    (hv' : HasDefault s'.target.column s'.target.value) (h : s.write = s'.write) :
    Settled ts s'.target := by
  obtain ⟨hid, -, hvalue⟩ := TableCall.setCell.inj h
  have htype : s.target.column.type = s'.target.column.type :=
    hs.holds.stored.type_unique (hvalue ▸ hv'.stored)
  refine ⟨hv', ?_, ?_⟩
  · rw [Target.StoresBlank, ← htype, ← hvalue]
    exact hs.full
  · rw [Target.Undisturbed, ← htype, ← hid]
    exact hs.undisturbed

theorem Idle.ne_write {c : TableCall} (h : Idle ts spots c)
    (hts : ∀ t ∈ ts, HasDefault t.column t.value) (hspots : ∀ s' ∈ spots, s'.target ∈ ts)
    (hs : Settled ts s.target) : c ≠ s.write := by
  obtain ⟨s', hs', rfl | ⟨rfl, hunsettled⟩⟩ := h
  · exact nofun
  · exact fun heq => hunsettled (hs.of_write_eq (hts _ (hspots s' hs')) heq.symm)

theorem TargetsOf.hasDefault (h : TargetsOf columns ts) :
    ∀ t ∈ ts, t.column ∈ columns ∧ HasDefault t.column t.value := by
  induction h with
  | nil => exact List.forall_mem_nil _
  | skip _ _ ih => exact fun t ht => (ih t ht).imp_left (List.mem_cons_of_mem _)
  | take hv _ ih =>
      exact List.forall_mem_cons.mpr ⟨⟨List.mem_cons_self, hv⟩,
        fun t ht => (ih t ht).imp_left (List.mem_cons_of_mem _)⟩

/-- Columns with different identifiers leave each other undisturbed. -/
theorem Target.undisturbed_of_nodup {t : Target} (hts : ∀ t ∈ ts, t.column ∈ columns)
    (hids : (columns.map (·.id)).Nodup) (ht : t ∈ ts) : t.Undisturbed ts := by
  intro t' ht' hid _
  rw [List.inj_on_of_nodup_map hids (hts t' ht') (hts t ht) hid]

theorem target_mem_of_mem_spots (hs : s ∈ Population.spots ts ids) : s.target ∈ ts := by
  obtain ⟨id, -, hs⟩ := List.mem_flatMap.mp hs
  obtain ⟨t, ht, rfl⟩ := List.mem_map.mp hs
  exact ht

/-- A run without a failure leaves the cells of settled targets filled. -/
theorem Stores.filled_after_run (hstores : Stores table contents) (htable : Answers table)
    (hts : ∀ t ∈ ts, HasDefault t.column t.value) (hattempts : 1 ≤ policy.attempts)
    (hleads : Leads policy table [] (Population.start ts ids) log (.ends (.finished []))) :
    ∀ s ∈ Population.spots ts ids, Settled ts s.target → s.IsFilled (contents log s.place) := by
  have hlog : Answered table log := hleads.answered (answered_nil table)
  obtain ⟨done, lost, hcourse, hcomplete⟩ | ⟨done, f, -, hbroken⟩ :=
    leads_course hattempts htable (Population.spots ts ids) [] []
  · obtain ⟨rfl, hnone⟩ := hleads.unique hcomplete
    exact hstores.filled_after_success hts (fun _ => target_mem_of_mem_spots) hcourse hlog
      (Ending.finished.inj hnone)
  · cases (hleads.unique hbroken).2

/-- A run over cells that are filled, if their target is settled, writes nothing for a settled
one. -/
theorem Stores.idle_run (hstores : Stores table contents) (htable : Answers table)
    (hts : ∀ t ∈ ts, HasDefault t.column t.value) (hattempts : 1 ≤ policy.attempts)
    (hlog : Answered table log)
    (hfilled : ∀ s ∈ Population.spots ts ids, Settled ts s.target →
      s.IsFilled (contents log s.place)) :
    ∃ again ending, Leads policy table log (Population.start ts ids) (log ++ again) (.ends ending) ∧
      ∀ x ∈ again, Idle ts (Population.spots ts ids) x.call := by
  obtain ⟨again, lost, hcourse, hleads⟩ | ⟨again, f, hbreaks, hleads⟩ :=
    leads_course hattempts htable (Population.spots ts ids) [] log
  · exact ⟨again, _, hleads, hstores.idle_course hts (fun _ => target_mem_of_mem_spots) hcourse
      (hleads.answered hlog) hfilled⟩
  · exact ⟨again, _, hleads, hstores.idle_breaksOff hts (fun _ => target_mem_of_mem_spots) hbreaks
      (hleads.answered hlog) hfilled⟩

/-- If a table keeps what is written and populating it had no failure, populating it again, under
whatever policy, writes nothing for a column whose default has a text that is not blank, provided
that the column is undisturbed. Columns with different identifiers are. -/
theorem nothing_written_again (hts : targets columns = .ok ts) (ids : List String)
    (hattempts : 1 ≤ policy.attempts) (hattempts' : 1 ≤ policy'.attempts)
    (htable : Answers table) (hstores : Stores table contents)
    (hfirst : Leads policy table [] (Population.start ts ids) log (.ends (.finished []))) :
    ((columns.map (·.id)).Nodup → ∀ t ∈ ts, t.Undisturbed ts) ∧
      ∃ again ending,
        Leads policy' table log (Population.start ts ids) (log ++ again) (.ends ending) ∧
        (∀ log' ending', Leads policy' table log (Population.start ts ids) log' (.ends ending') →
          log' = log ++ again ∧ ending' = ending) ∧
        (∀ s ∈ Population.spots ts ids, s.target.HasText → s.target.Undisturbed ts →
          ∀ x ∈ again, x.call ≠ s.write) ∧
        ((∀ t ∈ ts, t.HasText ∧ t.Undisturbed ts) →
          ∀ x ∈ again, ∃ s ∈ Population.spots ts ids, x.call = s.read) := by
  have hdefaults := (targetsOf hts).hasDefault
  have hts' (t : Target) (ht : t ∈ ts) : HasDefault t.column t.value := (hdefaults t ht).2
  have hsettled (t : Target) (ht : t ∈ ts) (htext : t.HasText) (hapart : t.Undisturbed ts) :
      Settled ts t :=
    ⟨hts' t ht, htext.not_storesBlank (hts' t ht), hapart⟩
  have hfilled := hstores.filled_after_run htable hts' hattempts hfirst
  obtain ⟨again, ending, hleads, hidle⟩ := hstores.idle_run htable hts' hattempts'
    (hfirst.answered (answered_nil table)) hfilled
  refine ⟨fun hids t => Target.undisturbed_of_nodup (fun t ht => (hdefaults t ht).1) hids,
    again, ending, hleads, fun _ _ => hleads.unique, fun s hs htext hapart x hx => ?_,
    fun hall x hx => ?_⟩
  · have ht := target_mem_of_mem_spots hs
    exact (hidle x hx).ne_write hts' (fun _ => target_mem_of_mem_spots) (hsettled _ ht htext hapart)
  · obtain ⟨s, hs, hread | ⟨-, hunsettled⟩⟩ := hidle x hx
    · exact ⟨s, hs, hread⟩
    · have ht := target_mem_of_mem_spots hs
      exact absurd (hsettled _ ht (hall _ ht).1 (hall _ ht).2) hunsettled

/-! ### A cell that is filled once, and one that is filled again -/

/-- A table whose cells are blank. -/
def blankTable : ScriptedTable :=
  ⟨[], [], []⟩

/-- The first run fills the cell, and the second one only reads it. -/
theorem status_written_once :
    ∃ again ending, Leads .usual blankTable.replies
        [⟨.cell "status" "r1", .cell .null⟩,
          ⟨.setCell "status" "r1" (.text "new"), .stored true⟩]
        (Population.start [⟨status, .text "new"⟩] ["r1"])
        ([⟨.cell "status" "r1", .cell .null⟩,
          ⟨.setCell "status" "r1" (.text "new"), .stored true⟩] ++ again) (.ends ending) ∧
      ∀ x ∈ again, x.call = .cell "status" "r1" := by
  have hdeclared : declared? status = .ok (some (.text "new")) :=
    declared?_of_declares (by decide +kernel)
  have htext : Target.HasText ⟨status, .text "new"⟩ := ⟨_, "new", hdeclared, rfl, rfl⟩
  have hattempts : 1 ≤ RetryPolicy.usual.attempts := by decide
  obtain ⟨hapart, again, ending, hleads, -, -, honly⟩ :=
    nothing_written_again targets_status ["r1"] hattempts hattempts blankTable.answers
      blankTable.stores (.ask rfl (.ask rfl (.here _ _)))
  have hall (t : Target) (ht : t ∈ [⟨status, .text "new"⟩]) :
      t.HasText ∧ t.Undisturbed [⟨status, .text "new"⟩] :=
    ⟨List.mem_singleton.mp ht ▸ htext, hapart (List.nodup_singleton _) t ht⟩
  refine ⟨again, ending, hleads, fun x hx => ?_⟩
  obtain ⟨s, hs, hread⟩ := honly hall x hx
  obtain rfl : s = ⟨"r1", status, .text "new"⟩ := List.mem_singleton.mp hs
  exact hread

/-- A column of texts with a default. -/
def note : Column :=
  ⟨"f", "Note", .text, .text "\x7b\"validator\": \"string|default:x\"\x7d", .null⟩

/-- A column of single selects in the same cells. Its default is the option without a name. -/
def kind : Column :=
  ⟨"f", "Kind", .singleSelect, .text "\x7b\"validator\": \"string|default:\"\x7d",
    .object [("options", .list [.object [("id", .text "o"), ("name", .text "")]])]⟩

/-- What the column of single selects holds for its default. -/
def nameless : Value :=
  .object [("id", .text "o"), ("text", .text "")]

theorem targets_shared : targets [note, kind] = .ok [⟨note, .text "x"⟩, ⟨kind, nameless⟩] := by
  have hnote : HasDefault note (.text "x") := hasDefault_of_declares rfl (by decide +kernel)
  have hkind : HasDefault kind nameless :=
    ⟨.text "", declared?_of_declares (by decide +kernel), by rfl⟩
  rw [targets, hnote.target?, targets, hkind.target?]
  rfl

/-- What is blank for a column of single selects only. -/
def plainObject : Value :=
  .object [("foo", .int 1)]

/-- A table with one cell. -/
def sharedTable : ScriptedTable :=
  ⟨[(⟨"f", "r1"⟩, plainObject)], [], []⟩

/-- The first run writes the default of the single selects, which is blank for both columns. So the
second run writes the default of the texts. -/
theorem shared_written_again :
    targets [note, kind] = .ok [⟨note, .text "x"⟩, ⟨kind, nameless⟩] ∧
      Target.HasText ⟨note, .text "x"⟩ ∧ Answers sharedTable.replies ∧
      Stores sharedTable.replies (fun log => (sharedTable.after log).payload) ∧
      ∃ log again,
        Leads .usual sharedTable.replies []
          (Population.start [⟨note, .text "x"⟩, ⟨kind, nameless⟩] ["r1"]) log
          (.ends (.finished [])) ∧
        Leads .usual sharedTable.replies log
          (Population.start [⟨note, .text "x"⟩, ⟨kind, nameless⟩] ["r1"]) (log ++ again)
          (.ends (.finished [])) ∧
        ⟨.setCell "f" "r1" (.text "x"), .stored true⟩ ∈ again := by
  have htext : Target.HasText ⟨note, .text "x"⟩ :=
    ⟨.text "x", "x", declared?_of_declares (by decide +kernel), rfl, rfl⟩
  refine ⟨targets_shared, htext, sharedTable.answers, sharedTable.stores,
    [⟨.cell "f" "r1", .cell plainObject⟩, ⟨.cell "f" "r1", .cell plainObject⟩,
      ⟨.setCell "f" "r1" nameless, .stored true⟩],
    [⟨.cell "f" "r1", .cell nameless⟩, ⟨.setCell "f" "r1" (.text "x"), .stored true⟩,
      ⟨.cell "f" "r1", .cell (.text "x")⟩],
    .ask rfl (.ask rfl (.ask rfl (.here _ _))), .ask rfl (.ask rfl (.ask rfl (.here _ _))), ?_⟩
  exact List.mem_cons_of_mem _ List.mem_cons_self

end Runs

end TableAudit.Defaults
