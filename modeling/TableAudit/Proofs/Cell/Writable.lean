import Mathlib.Algebra.Ring.Nat
import Mathlib.Data.List.Basic
import Mathlib.Tactic.SplitIfs
import TableAudit.Cell.ColumnType
import TableAudit.Cell.Normal
import TableAudit.Value.Text

/-!
# Values that can be written

A value can be written if all integers in its literal are short enough. The parts that are looked up
in it hold no other integers, so they can be written too.
-/

namespace TableAudit.Value

variable {v x : Value} {key : String} {items : List Value} {entries : List (Value × Value)}

theorem allWritable_iff : allWritable items = true ↔ ∀ v ∈ items, v.isWritable = true := by
  induction items with
  | nil => simp [allWritable]
  | cons v items ih => rw [allWritable, Bool.and_eq_true, List.forall_mem_cons, ih]

theorem entriesWritable_iff : entriesWritable entries = true ↔
    ∀ e ∈ entries, e.1.isWritable = true ∧ e.2.isWritable = true := by
  induction entries with
  | nil => simp [entriesWritable]
  | cons e entries ih =>
      rw [entriesWritable, Bool.and_eq_true, Bool.and_eq_true, List.forall_mem_cons, ih]

/-- An integer has few enough digits to be written. -/
def IsShort (n : Int) : Prop :=
  (Nat.toDigits 10 n.natAbs).length ≤ Number.digitLimit

theorem isWritable_int {n : Int} : (int n).isWritable = true ↔ IsShort n := by
  rw [isWritable, decide_eq_true_iff, IsShort]

theorem isShort_iff {n : Int} : IsShort n ↔ n.natAbs < 10 ^ Number.digitLimit :=
  Nat.length_toDigits_le_iff (by decide) (by decide)

/-- An integer stands in the literal of a value. -/
inductive Spells : Value → Int → Prop
  | int (n : Int) : Spells (.int n) n
  | item {items : List Value} {v : Value} {n : Int} (hv : v ∈ items) (h : Spells v n) :
      Spells (.list items) n
  | part {items : List Value} {v : Value} {n : Int} (hv : v ∈ items) (h : Spells v n) :
      Spells (.tuple items) n
  | key {entries : List (Value × Value)} {e : Value × Value} {n : Int} (he : e ∈ entries)
      (h : Spells e.1 n) : Spells (.map entries) n
  | value {entries : List (Value × Value)} {e : Value × Value} {n : Int} (he : e ∈ entries)
      (h : Spells e.2 n) : Spells (.map entries) n

theorem Spells.isShort {n : Int} (h : Spells v n) (hw : v.isWritable = true) : IsShort n := by
  induction h with
  | int n => exact isWritable_int.mp hw
  | item hv _ ih => exact ih (allWritable_iff.mp hw _ hv)
  | part hv _ ih => exact ih (allWritable_iff.mp hw _ hv)
  | key he _ ih => exact ih (entriesWritable_iff.mp hw _ he).1
  | value he _ ih => exact ih (entriesWritable_iff.mp hw _ he).2

theorem isWritable_of_short (v : Value) (h : ∀ n, v.Spells n → IsShort n) :
    v.isWritable = true := by
  match v with
  | .int n => exact isWritable_int.mpr (h n (.int n))
  | .list items =>
      exact allWritable_iff.mpr fun v hv => isWritable_of_short v fun n hn => h n (.item hv hn)
  | .tuple items =>
      exact allWritable_iff.mpr fun v hv => isWritable_of_short v fun n hn => h n (.part hv hn)
  | .map entries =>
      exact entriesWritable_iff.mpr fun e he =>
        ⟨isWritable_of_short e.1 fun n hn => h n (.key he hn),
          isWritable_of_short e.2 fun n hn => h n (.value he hn)⟩
  | .null | .bool _ | .float _ | .text _ | .bytes _ | .date _ | .moment _ | .stamp _ | .noStamp
  | .record _ => rfl
termination_by sizeOf v
decreasing_by
  all_goals simp_wf
  all_goals first
    | have := List.sizeOf_lt_of_mem hv; omega
    | have := List.sizeOf_lt_of_mem he; obtain ⟨k, w⟩ := e; simp_all; omega

/-- A value can be written if all integers that stand in it are short enough. -/
theorem isWritable_iff : v.isWritable = true ↔ ∀ n, v.Spells n → IsShort n :=
  ⟨fun hw _ h => h.isShort hw, isWritable_of_short v⟩

/-! ### Parts of values -/

/-- All integers that stand in a value stand in another one. -/
def Within (x v : Value) : Prop :=
  ∀ n, x.Spells n → v.Spells n

theorem Within.refl (v : Value) : v.Within v :=
  fun _ h => h

theorem Within.trans {u : Value} (hx : x.Within v) (hv : v.Within u) : x.Within u :=
  fun n hn => hv n (hx n hn)

theorem Within.isWritable (h : x.Within v) (hv : v.isWritable = true) : x.isWritable = true :=
  isWritable_iff.mpr fun n hn => (h n hn).isShort hv

theorem within_null (v : Value) : null.Within v :=
  fun _ h => by cases h

theorem within_text (s : String) (v : Value) : (text s).Within v :=
  fun _ h => by cases h

theorem within_list (h : v ∈ items) : v.Within (.list items) :=
  fun _ hn => .item h hn

theorem within_tuple (h : v ∈ items) : v.Within (.tuple items) :=
  fun _ hn => .part h hn

theorem within_get? (h : v.get? key = some x) : x.Within v := by
  cases v with
  | map entries =>
      obtain ⟨⟨k, w⟩, he, hk⟩ := List.exists_of_findSome?_eq_some h
      cases k <;> simp at hk
      rw [← hk.2]
      exact fun _ hn => .value he hn
  | _ => cases h

theorem within_get (v : Value) (key : String) : (v.get key).Within v := by
  rw [get]
  cases hx : v.get? key with
  | none => exact within_null v
  | some x => exact within_get? hx

/-! ### Mappings from pairs -/

theorem entriesWritable_insert (h : entriesWritable entries = true) (hv : v.isWritable = true)
    (hx : x.isWritable = true) : entriesWritable (insert entries v x) = true := by
  induction entries with
  | nil => rw [insert, entriesWritable, hv, hx]; rfl
  | cons e entries ih =>
      obtain ⟨k, w⟩ := e
      rw [entriesWritable, Bool.and_eq_true, Bool.and_eq_true] at h
      rw [insert]
      split
      · rw [entriesWritable, h.1.1, hx, h.2]
        rfl
      · rw [entriesWritable, h.1.1, h.1.2, ih h.2]
        rfl

theorem entriesWritable_ofPairs (h : entriesWritable entries = true) :
    entriesWritable (ofPairs entries) = true := by
  suffices ∀ known, entriesWritable known = true →
      entriesWritable (entries.foldl (fun es p => insert es p.1 p.2) known) = true from this [] rfl
  induction entries with
  | nil => exact fun known hk => hk
  | cons e entries ih =>
      intro known hk
      rw [entriesWritable, Bool.and_eq_true, Bool.and_eq_true] at h
      exact ih h.2 _ (entriesWritable_insert hk h.1.1 h.1.2)

end TableAudit.Value

/-!
## What is written for a cell

What is written for a cell is taken from its payload: no other integers stand in it than in the
payload. So a cell can be written if its payload can.
-/

namespace TableAudit.Cell

variable {t : ColumnType} {raw item : Value} {items : List Value}

/-- What is written for a cell holds no integers but those of a payload. -/
def StemsFrom (raw : Value) (c : Cell) : Prop :=
  ∀ v ∈ c.sources, v.Within raw

theorem within_firstOf {values : List Value} (h : ∀ v ∈ values, v.Within raw)
    (otherwise : String) : (firstOf values otherwise).Within raw := by
  rw [firstOf]
  cases hv : values.find? Value.isTruthy with
  | none => exact Value.within_text otherwise raw
  | some v => exact h v (List.mem_of_find?_eq_some hv)

theorem within_firstOf_get (h : item.Within raw) (key otherwise : String) :
    (firstOf [item.get key] otherwise).Within raw := by
  apply within_firstOf
  rw [List.forall_mem_singleton]
  exact (Value.within_get item key).trans h

theorem within_choice (h : item.Within raw) : (choice item).label.Within raw := by
  rw [choice]
  split
  · apply within_firstOf
    rw [List.forall_mem_cons, List.forall_mem_singleton]
    exact ⟨(Value.within_get item _).trans h, (Value.within_get item _).trans h⟩
  · exact h

/-! ### Cells of lists -/

section Lists

variable (h : ∀ v ∈ items, v.Within raw)
include h

theorem stemsFrom_multiSelect : StemsFrom raw (multiSelect (items.map choice)) := by
  rw [StemsFrom, sources, List.map_map, List.forall_mem_map]
  intro v hv
  exact within_choice (h v hv)

theorem stemsFrom_users : StemsFrom raw (users (items.map person)) := by
  rw [StemsFrom, sources, List.map_map, List.forall_mem_map]
  intro v hv
  exact within_firstOf_get (h v hv) "name" ""

theorem stemsFrom_groupChats : StemsFrom raw (groupChats (items.map chatGroup)) := by
  rw [StemsFrom, sources, List.map_map, List.forall_mem_map]
  intro v hv
  exact within_firstOf_get (h v hv) "id" ""

theorem stemsFrom_attachments : StemsFrom raw (attachments (items.map attachment)) := by
  rw [StemsFrom, sources, List.flatMap_map, List.forall_mem_flatMap]
  intro v hv
  rw [List.forall_mem_cons, List.forall_mem_cons, List.forall_mem_singleton]
  exact ⟨within_firstOf_get (h v hv) "name" "", (Value.within_get v "size").trans (h v hv),
    (Value.within_get v "timestamp").trans (h v hv)⟩

theorem stemsFrom_segments : StemsFrom raw (segments (items.map segment)) := by
  rw [StemsFrom, sources, List.flatMap_map, List.forall_mem_flatMap]
  intro v hv
  rw [List.forall_mem_cons, List.forall_mem_singleton]
  exact ⟨within_firstOf_get (h v hv) "text" "", within_firstOf_get (h v hv) "type" "text"⟩

end Lists

theorem stemsFrom_one {c : Cell} {v : Value} (hc : c.sources = [v]) (h : v.Within raw) :
    StemsFrom raw c := by
  rw [StemsFrom, hc, List.forall_mem_singleton]
  exact h

theorem stemsFrom_none {c : Cell} (hc : c.sources = []) : StemsFrom raw c := by
  rw [StemsFrom, hc]
  exact fun v hv => absurd hv List.not_mem_nil

theorem stemsFrom_ofMaps {first : Value} (h : ∀ v ∈ items, v.Within raw)
    (hall : (Value.list items).Within raw) : StemsFrom raw (ofMaps first items) := by
  rw [ofMaps]
  split_ifs
  · exact stemsFrom_none rfl
  · exact stemsFrom_attachments h
  · exact stemsFrom_users h
  · exact stemsFrom_groupChats h
  · exact stemsFrom_segments h
  · exact stemsFrom_multiSelect h
  · exact stemsFrom_segments h
  · exact stemsFrom_users h
  · exact stemsFrom_one rfl hall

theorem stemsFrom_ofItems (h : ∀ v ∈ items, v.Within raw) (hall : (Value.list items).Within raw) :
    StemsFrom raw (ofItems t items) := by
  have hmaps : ∀ v ∈ items.filter Value.isMap, v.Within raw := fun v hv =>
    h v (List.mem_filter.mp hv).1
  cases items with
  | nil => exact stemsFrom_none rfl
  | cons first rest =>
      simp only [ofItems]
      split_ifs
      · exact stemsFrom_users hmaps
      · exact stemsFrom_groupChats hmaps
      · exact stemsFrom_attachments hmaps
      · exact stemsFrom_multiSelect h
      · exact stemsFrom_ofMaps h hall
      · exact stemsFrom_one rfl hall

/-! ### All cells -/

theorem stemsFrom_ofMap (entries : List (Value × Value)) :
    StemsFrom (.map entries) (ofMap t entries) := by
  have hself := Value.Within.refl (.map entries)
  simp only [ofMap]
  split_ifs
  · exact stemsFrom_one rfl (within_choice hself)
  · exact stemsFrom_none rfl
  · exact stemsFrom_none rfl
  · exact stemsFrom_none rfl
  · exact stemsFrom_segments (List.forall_mem_singleton.mpr hself)
  · exact stemsFrom_one rfl hself

theorem sources_ofNumber (t : ColumnType) (n : Number) : (ofNumber t n).sources = [n.toValue] := by
  rw [ofNumber]
  split <;> rfl

/-- What is written for a cell stems from its payload. -/
theorem stemsFrom_ofPayload (t : ColumnType) (raw : Value) : StemsFrom raw (ofPayload t raw) := by
  unfold ofPayload
  split
  case h_1 => exact stemsFrom_none rfl
  case h_2 => exact stemsFrom_none rfl
  case h_3 => exact stemsFrom_none rfl
  case h_4 n _ => exact stemsFrom_one (sources_ofNumber t (.int n)) (.refl _)
  case h_5 x _ => exact stemsFrom_one (sources_ofNumber t (.float x)) (.refl _)
  case h_6 => exact stemsFrom_none rfl
  case h_7 items _ =>
    exact stemsFrom_ofItems (fun v hv => Value.within_list hv) (.refl _)
  case h_8 items _ =>
    refine stemsFrom_ofItems (fun v hv => Value.within_tuple hv) fun n hn => ?_
    cases hn with
    | item hv h => exact .part hv h
  case h_9 entries _ => exact stemsFrom_ofMap entries
  case h_10 => exact stemsFrom_one rfl (.refl _)

/-- A cell can be written if its payload can. -/
theorem isWritable_ofPayload (h : raw.isWritable = true) : (ofPayload t raw).isWritable = true := by
  rw [isWritable, List.all_eq_true]
  intro v hv
  exact (stemsFrom_ofPayload t raw v hv).isWritable h

end TableAudit.Cell

/-!
## Codes of column types

Every code stands for a type, if only for the unknown one. Infinite numbers make the exception.
-/

namespace TableAudit.ColumnType

/-- A text spells no number beyond the integers. -/
theorem readInteger_ne_outOfRange (cs : List Char) :
    Number.readInteger cs ≠ .error .outOfRange := by
  rw [Number.readInteger]
  split
  next f _ =>
    split
    · rw [Number.Form.integer]
      split <;> nofun
    · nofun
  · nofun

/-- Only an infinite number is no integer for want of range. -/
theorem codeInt?_outOfRange_iff {v : Value} :
    codeInt? v = .error .outOfRange ↔ ∃ negative, v = .float (.infinity negative) := by
  constructor
  · intro h
    cases v with
    | float x =>
        cases x with
        | nan => cases h
        | infinity negative => exact ⟨negative, rfl⟩
        | finite s m e => cases h
    | text s => exact absurd h (readInteger_ne_outOfRange _)
    | bytes b =>
        rw [codeInt?] at h
        split at h
        · exact absurd h (readInteger_ne_outOfRange _)
        · cases h
    | _ => cases h
  · rintro ⟨negative, rfl⟩
    rfl

theorem ofCode_error_iff {v : Value} {f : Fault} :
    ofCode v = .error f ↔ f = .outOfRange ∧ ∃ negative, v = .float (.infinity negative) := by
  rw [← codeInt?_outOfRange_iff, ofCode]
  cases codeInt? v with
  | ok n => simp
  | error g => cases g <;> simp [eq_comm]

/-- A code has a type unless it is infinite. -/
theorem ofCode_ok_iff {v : Value} :
    (∃ type, ofCode v = .ok type) ↔ ∀ negative, v ≠ .float (.infinity negative) := by
  constructor
  · rintro ⟨type, htype⟩ negative rfl
    cases htype
  · intro h
    cases hv : ofCode v with
    | ok type => exact ⟨type, rfl⟩
    | error f =>
        obtain ⟨-, negative, heq⟩ := ofCode_error_iff.mp hv
        exact absurd heq (h negative)

end TableAudit.ColumnType
