import TableAudit.Proofs.Column.RuleText
import TableAudit.Proofs.Defaults.Visits
import TableAudit.Proofs.Json.Writable
import TableAudit.Proofs.Pass.Configuration
import TableAudit.Proofs.Rule.Syntaxes

/-!
# Resolving defaults

Before any cell of new records is visited, the default of every column is found in its rule and
converted to what the column can hold. A column that cannot hold its default is passed over. But a
description with a defect, an integer that is too large for a double, and options that cannot be
looked into break the resolution off, and then no column is populated.
-/

namespace TableAudit

/-! ### What a rule declares as the default -/

namespace Rule

variable {ps : Properties} {key source : String} {cs : List Char} {v : Value} {r : Rule}

/-- All values among properties can be written. -/
def AllWritable (ps : Properties) : Prop :=
  ∀ p ∈ ps, p.2.isWritable = true

theorem AllWritable.get (h : AllWritable ps) (key : String) : (ps.get key).isWritable = true := by
  rw [Properties.get, Properties.get?]
  induction ps with
  | nil => rfl
  | cons p ps ih =>
      obtain ⟨hp, hps⟩ := List.forall_mem_cons.mp h
      rw [List.lookup_cons]
      split
      · exact hp
      · exact ih hps

theorem AllWritable.set (h : AllWritable ps) (key : String) (hv : v.isWritable = true) :
    AllWritable (ps.set key v) := by
  induction ps with
  | nil => exact List.forall_mem_cons.mpr ⟨hv, List.forall_mem_nil _⟩
  | cons p ps ih =>
      obtain ⟨hp, hps⟩ := List.forall_mem_cons.mp h
      rw [Properties.set]
      split
      · exact List.forall_mem_cons.mpr ⟨hv, hps⟩
      · exact List.forall_mem_cons.mpr ⟨hp, ih hps⟩

theorem isWritable_readInteger {n : Int} (h : TableAudit.Number.readInteger cs = .ok n) :
    (Value.int n).isWritable = true := by
  rw [TableAudit.Number.readInteger] at h
  split at h
  next f _ =>
    split at h
    next =>
      rw [TableAudit.Number.Form.integer] at h
      split at h
      next => cases h
      next hshort =>
        obtain rfl := Except.ok.inj h
        refine Json.isWritable_digits hshort ?_
        split <;> simp
    next => cases h
  next => cases h

theorem isWritable_scalar (h : scalar cs = .ok v) : v.isWritable = true := by
  simp only [scalar] at h
  split at h
  next => cases h; rfl
  next =>
    split at h
    next => cases h; rfl
    next =>
      split at h
      next => cases h; rfl
      next =>
        split at h
        next =>
          obtain ⟨n, hn, rfl⟩ := map_ok_iff.mp h
          exact isWritable_readInteger hn
        next =>
          split at h
          next => cases h; rfl
          next => cases h

theorem AllWritable.addPiece {piece : List Char} {ps' : Properties} (hps : AllWritable ps)
    (h : addPiece ps piece = .ok ps') : AllWritable ps' := by
  simp only [Rule.addPiece] at h
  split at h
  next => cases h; exact hps
  next =>
    split at h
    next => cases h; exact hps.set _ rfl
    next =>
      obtain ⟨v, hv, rfl⟩ := map_ok_iff.mp h
      exact hps.set _ (isWritable_scalar hv)

theorem AllWritable.addPieces {pieces : List (List Char)} {ps' : Properties}
    (hps : AllWritable ps) (h : pieces.foldlM Rule.addPiece ps = .ok ps') : AllWritable ps' := by
  induction pieces generalizing ps with
  | nil =>
      obtain rfl := Except.ok.inj h
      exact hps
  | cons piece pieces ih =>
      rw [List.foldlM_cons] at h
      obtain ⟨ps₁, hpiece, h⟩ := bind_ok_iff.mp h
      exact ih (hps.addPiece hpiece) h

theorem allWritable_ofEntries {entries : List (Value × Value)}
    (h : Value.entriesWritable entries = true) : AllWritable (ofEntries entries) := by
  intro p hp
  obtain ⟨e, he, hk⟩ := List.mem_filterMap.mp hp
  obtain ⟨k, -, rfl⟩ := Option.map_eq_some_iff.mp hk
  exact (Value.entriesWritable_iff.mp h e he).2

/-- The values that a rule gives its properties can be written: neither of the readers accepts an
integer with too many digits. -/
theorem allWritable_properties (h : properties source = .ok ps) : AllWritable ps := by
  simp only [properties] at h
  split at h
  next => cases h
  next =>
    rw [ofObject] at h
    split at h
    next => cases h
    next => cases h
    next entries hread =>
      split at h
      next =>
        obtain rfl := Except.ok.inj h
        exact allWritable_ofEntries (Json.isWritable_read hread)
      next => cases h
    next => cases h
  next =>
    rw [ofShort] at h
    split at h
    next =>
      obtain rfl := Except.ok.inj h
      exact List.forall_mem_nil _
    next type pieces _ =>
      cases hfold : pieces.foldlM addPiece
        [("type", .text (String.ofList (TableAudit.Text.trimChars type)))] with
      | error f => rw [hfold] at h; cases h
      | ok ps' =>
          rw [hfold] at h
          obtain rfl := Except.ok.inj h
          exact AllWritable.addPieces (List.forall_mem_singleton.mpr rfl) hfold

theorem readCommon_default {c : Common} (h : readCommon ps = .ok c) :
    c.default = ps.get "default" := by
  obtain ⟨optional, -, h⟩ := bind_ok_iff.mp h
  obtain ⟨required, -, h⟩ := bind_ok_iff.mp h
  obtain rfl := Except.ok.inj h
  rfl

/-- Every kind of rule declares the default as all do. -/
theorem ofProperties_common (h : ofProperties ps = .ok r) : readCommon ps = .ok r.common := by
  simp only [ofProperties] at h
  split at h
  next =>
    obtain ⟨r, hr, rfl⟩ := map_ok_iff.mp h
    rw [readText] at hr
    split at hr
    all_goals
      simp only [bind_ok_iff] at hr
      obtain ⟨_, -, _, -, _, -, _, -, _, -, _, -, _, -, common, hcommon, _, -, _, -, _, -, hr⟩ := hr
      obtain rfl := Except.ok.inj hr
      exact hcommon
  next =>
    obtain ⟨r, hr, rfl⟩ := map_ok_iff.mp h
    simp only [readNumber, bind_ok_iff] at hr
    obtain ⟨common, hcommon, _, -, _, -, _, -, _, -, _, -, _, -, hr⟩ := hr
    obtain rfl := Except.ok.inj hr
    exact hcommon
  next =>
    obtain ⟨r, hr, rfl⟩ := map_ok_iff.mp h
    simp only [readDate, bind_ok_iff] at hr
    obtain ⟨_, -, common, hcommon, _, -, hr⟩ := hr
    obtain rfl := Except.ok.inj hr
    exact hcommon
  next =>
    obtain ⟨r, hr, rfl⟩ := map_ok_iff.mp h
    simp only [readBoolean, bind_ok_iff] at hr
    obtain ⟨common, hcommon, _, -, hr⟩ := hr
    obtain rfl := Except.ok.inj hr
    exact hcommon
  next =>
    obtain ⟨common, hcommon, rfl⟩ := map_ok_iff.mp h
    exact hcommon
  next =>
    obtain ⟨r, hr, rfl⟩ := map_ok_iff.mp h
    rw [readChoice] at hr
    split at hr
    next => cases hr
    next =>
      simp only [bind_ok_iff] at hr
      obtain ⟨common, hcommon, _, -, hr⟩ := hr
      obtain rfl := Except.ok.inj hr
      exact hcommon
  next => cases h

/-- The default that the text of a rule declares can be written. -/
theorem isWritable_default (h : ofText source = .ok r) : r.default.isWritable = true := by
  obtain ⟨ps, hps, h⟩ := bind_ok_iff.mp h
  rw [Rule.default, readCommon_default (ofProperties_common h)]
  exact (allWritable_properties hps).get "default"

end Rule

/-! ### Columns that break the resolution off -/

namespace Defaults

variable {c : Column} {columns : List Column} {ts : List Target} {d : Value} {text : String}

/-- Options in which the search for one with a name comes to one that cannot be looked into. -/
inductive Unsearchable (text : String) : List Value → Prop
  | here {o : Value} {rest : List Value} (closed : o.isMap = false) : Unsearchable text (o :: rest)
  | later {o : Value} {rest : List Value} (opened : o.isMap = true)
      (other : (o.get "name").eqv (.text text) = false) (tail : Unsearchable text rest) :
      Unsearchable text (o :: rest)

/-- A default whose conversion breaks off, neither accepted nor refused by the column. -/
inductive Unconvertible (c : Column) : Value → Prop
  /-- An integer that is too large for a double is to be kept in a number column. -/
  | number {n : Int} (type : c.type = .number) (large : (Number.int n).toDouble? = none) :
      Unconvertible c (.int n)
  /-- The properties of a single select column hold something but are no mapping. -/
  | properties {d : Value} (type : c.type = .singleSelect) (held : c.properties.isTruthy = true)
      (closed : c.properties.isMap = false) : Unconvertible c d
  /-- One of the options of a single select column cannot be looked into. -/
  | option {d : Value} {options : List Value} {text : String} (type : c.type = .singleSelect)
      (found : c.options = .ok options) (spelled : defaultText d = .ok text)
      (unsearchable : Unsearchable text options) : Unconvertible c d

/-- The default of a column cannot be resolved: its description has a defect, or the conversion of
the declared default breaks off. -/
def Unresolvable (c : Column) : Prop :=
  RuleConfig.Defect c.description ∨ ∃ d, declared? c = .ok (some d) ∧ Unconvertible c d

/-- Finding the declared default breaks off exactly if the description has a defect. -/
theorem declared?_error_iff : (∃ f, declared? c = .error f) ↔ RuleConfig.Defect c.description := by
  constructor
  · rintro ⟨f, hf⟩
    cases hd : RuleConfig.ofDescription c.description with
    | error g => exact .unread (RuleConfig.ofDescription_error_iff.mp ⟨g, hd⟩)
    | ok config =>
        simp only [declared?, hd] at hf
        cases config with
        | absent => cases hf
        | broken text m => cases hf
        | found source extra =>
            dsimp only at hf
            split at hf
            next g hm => exact .rule source extra hd (Rule.ofText_faulty_iff.mp ⟨g, hm⟩)
            next => cases hf
            next => split at hf <;> cases hf
  · intro h
    cases h with
    | unread h =>
        obtain ⟨f, hf⟩ := RuleConfig.ofDescription_error_iff.mpr h
        exact ⟨f, by simp [declared?, hf]⟩
    | rule source extra hd hdefect =>
        obtain ⟨f, hf⟩ := Rule.ofText_faulty_iff.mpr hdefect
        exact ⟨f, by simp [declared?, hd, hf]⟩

theorem isWritable_declared (h : declared? c = .ok (some d)) : d.isWritable = true := by
  rw [declared?] at h
  split at h
  next => cases h
  next =>
    split at h
    next => cases h
    next => cases h
    next hr =>
      split at h
      next => cases h
      next =>
        cases h
        exact Rule.isWritable_default hr
  next => cases h

theorem defaultText_of_writable (hd : d.isWritable = true) : ∃ text, defaultText d = .ok text := by
  unfold defaultText
  split
  next => exact ⟨"", rfl⟩
  next => exact ⟨d.plain, if_pos hd⟩

theorem toDouble?_float (x : Number.Binary64) : (Number.float x).toDouble? = some x :=
  rfl

/-- Converting a default for a number column breaks off exactly at an integer that is too large. -/
theorem numberCell_error_iff : (∃ f, numberCell d text = .error f) ↔
    ∃ n, d = .int n ∧ (Number.int n).toDouble? = none := by
  rw [numberCell]
  split
  next n hn =>
    cases d with
    | int m =>
        obtain rfl := Option.some.inj hn
        cases hx : (Number.int m).toDouble? <;> simp [hx]
    | float x =>
        obtain rfl := Option.some.inj hn
        simp [toDouble?_float]
    | _ => cases hn
  next hn =>
    have hint (n : Int) : d ≠ .int n := by
      rintro rfl
      cases hn
    simp only [hint, false_and, exists_false, iff_false]
    split <;> simp

theorem options_error_iff : (∃ f, c.options = .error f) ↔
    c.properties.isTruthy = true ∧ c.properties.isMap = false := by
  rw [Column.options]
  cases c.properties.isTruthy with
  | false => simp
  | true =>
      rw [if_pos rfl]
      cases c.properties with
      | map entries =>
          simp only [Value.isMap, Bool.true_eq_false, and_false, iff_false]
          split <;> simp
      | _ => simp [Value.isMap]

/-- The search for an option breaks off exactly at one that cannot be looked into. -/
theorem optionCell_fault_iff {name : String} {options : List Value} :
    (∃ f, optionCell name text options = .error (.fault f)) ↔ Unsearchable text options := by
  induction options with
  | nil =>
      refine iff_of_false ?_ nofun
      rintro ⟨f, hf⟩
      cases hf
  | cons o rest ih =>
      rw [optionCell]
      split
      next hopened =>
        split
        next hsame =>
          refine iff_of_false (by simp) fun h => ?_
          cases h with
          | here closed => simp [hopened] at closed
          | later _ other _ => simp [hsame] at other
        next hother =>
          rw [ih]
          refine ⟨.later hopened (by simpa using hother), fun h => ?_⟩
          cases h with
          | here closed => simp [hopened] at closed
          | later _ _ tail => exact tail
      next hclosed => exact iff_of_true ⟨_, rfl⟩ (.here (by simpa using hclosed))

/-- Converting a default that can be written is accepted or refused by the column, but for the
cases named. -/
theorem cellValue_fault_iff (hd : d.isWritable = true) :
    (∃ f, cellValue c d = .error (.fault f)) ↔ Unconvertible c d := by
  obtain ⟨text, htext⟩ := defaultText_of_writable hd
  simp only [cellValue, htext]
  constructor
  · rintro ⟨f, hf⟩
    rw [cellValueOf] at hf
    split at hf
    next => cases hf
    next htype =>
      cases hcell : numberCell d text with
      | ok v => rw [hcell] at hf; cases hf
      | error g =>
          obtain ⟨n, rfl, hn⟩ := numberCell_error_iff.mp ⟨g, hcell⟩
          exact .number htype hn
    next htype =>
      split at hf
      next options hoptions =>
        exact .option htype hoptions htext (optionCell_fault_iff.mp ⟨f, hf⟩)
      next g hoptions =>
        obtain ⟨hheld, hclosed⟩ := options_error_iff.mp ⟨g, hoptions⟩
        exact .properties htype hheld hclosed
    next => cases hf
  · intro h
    cases h with
    | @number n htype hn =>
        obtain ⟨f, hf⟩ : ∃ f, numberCell (.int n) text = .error f :=
          numberCell_error_iff.mpr ⟨n, rfl, hn⟩
        exact ⟨f, by simp only [cellValueOf, htype, hf, Except.mapError]⟩
    | properties htype hheld hclosed =>
        obtain ⟨f, hf⟩ := options_error_iff.mpr ⟨hheld, hclosed⟩
        exact ⟨f, by simp only [cellValueOf, htype, hf]⟩
    | option htype hoptions hspelled hunsearchable =>
        obtain rfl := Except.ok.inj (htext.symm.trans hspelled)
        obtain ⟨f, hf⟩ : ∃ f, optionCell c.name text _ = .error (.fault f) :=
          optionCell_fault_iff.mpr hunsearchable
        exact ⟨f, by simp only [cellValueOf, htype, hoptions, hf]⟩

theorem target?_error_iff : (∃ f, target? c = .error f) ↔ Unresolvable c := by
  rw [Unresolvable, ← declared?_error_iff, target?]
  cases hdeclared : declared? c with
  | error f => simp
  | ok default =>
      cases default with
      | none => simp
      | some d =>
          simp only [reduceCtorEq, exists_false, false_or, Except.ok.injEq, Option.some.injEq,
            exists_eq_left', ← cellValue_fault_iff (isWritable_declared hdeclared)]
          cases cellValue c d with
          | ok v => simp
          | error e => cases e <;> simp

/-- Resolving the defaults of columns breaks off exactly if one of them cannot be resolved. -/
theorem targets_error_iff : (∃ f, targets columns = .error f) ↔ ∃ c ∈ columns, Unresolvable c := by
  induction columns with
  | nil => simp [targets]
  | cons c cs ih =>
      rw [List.exists_mem_cons_iff, ← ih, ← target?_error_iff, targets]
      cases target? c with
      | error f => simp [bind, Except.bind]
      | ok t => cases targets cs <;> simp [bind, Except.bind]

/-- A column of truth values, which takes no default. -/
def done : Column :=
  ⟨"done", "Done", .checkbox, .text "\x7b\"validator\": \"string|default:yes\"\x7d", .null⟩

variable {n : Int} {rule text : String} {ascii : Bool} {cs : List Char}

theorem properties_ofShort {d : Char} (ht : Text.Trimmed cs) (hhead : cs.head? = some d)
    (hd : d ≠ '\x7b') :
    Rule.properties (String.ofList cs) = (Rule.ofShort cs).mapError Rule.Refusal.fault := by
  simp only [Rule.properties, String.toList_ofList, ht.trimChars]
  split
  next => cases hhead
  next => exact absurd (Option.some.inj hhead).symm hd
  next => rfl

/-- A rule for numbers with an integer as the default, in the short way. -/
def numberRule (n : Int) : List Char :=
  "number".toList ++ '|' :: Rule.piece ("default", .number (.int n))

theorem trimmed_numberRule (n : Int) : Text.Trimmed (numberRule n) := by
  have hw : (Rule.Setting.number (.int n)).Writable := trivial
  have hname : Text.Trimmed "default".toList := Text.trimmed_of_all rfl
  have htype : Text.Trimmed "number".toList := Text.trimmed_of_all rfl
  exact htype.join (hname.join (Rule.trimmed_short hw) (by decide)) (by decide)

theorem ofShort_numberRule (hn : Value.IsShort n) :
    Rule.ofShort (numberRule n) = .ok [("type", .text "number"), ("default", .int n)] := by
  have hw : (Rule.Setting.number (.int n)).Writable := trivial
  have hname : Rule.IsName "default" := Rule.isName_of_all rfl
  have hbar : '|' ∉ Rule.piece ("default", .number (.int n)) := by
    rw [Rule.piece, List.mem_append, List.mem_cons, not_or, not_or]
    exact ⟨hname.bar, by decide, Rule.bar_notMem_short hw⟩
  have hsplit : Text.splitAll '|' (numberRule n) =
      ["number".toList, Rule.piece ("default", .number (.int n))] := by
    have htype : '|' ∉ "number".toList := by decide
    have h := Text.splitAll_flatMap htype (List.forall_mem_singleton.mpr hbar)
    rwa [List.flatMap_singleton] at h
  have hfits : Json.fits (.int n) = true := decide_eq_true hn
  have htype : Text.Trimmed "number".toList := Text.trimmed_of_all rfl
  rw [Rule.ofShort, hsplit]
  simp only [htype.trimChars, String.ofList_toList, List.foldlM_cons, Rule.piece]
  rw [Rule.addPiece_new hname (Rule.trimmed_short hw) (by decide), Rule.scalar_int, if_pos hfits]
  rfl

/-- An integer that is short enough is read as the default. -/
theorem ofText_numberRule (hn : Value.IsShort n) : ∃ r,
    Rule.ofText (String.ofList (numberRule n)) = .ok r ∧ r.default = .int n := by
  have hname : Text.trim (Rule.Properties.get [("type", .text "number"), ("default", .int n)]
      "type").plain = "number" := by
    change Text.trim "number" = "number"
    decide
  have hproperties : Rule.properties (String.ofList (numberRule n)) =
      .ok [("type", .text "number"), ("default", .int n)] := by
    rw [properties_ofShort (d := 'n') (trimmed_numberRule n) rfl (by decide),
      ofShort_numberRule hn]
    rfl
  refine ⟨.number ⟨⟨false, false, .int n⟩, none, none, false, false, false, false⟩, ?_, rfl⟩
  rw [Rule.ofText, hproperties, ok_bind, Rule.ofProperties, hname]
  rfl

/-- The JSON text of an object with a rule is taken for the rule. -/
theorem found_of_dumped (hrule : Text.isBlankText rule = false)
    (h : Json.dumped? ascii (RuleConfig.ruleObject rule []) = some text) :
    RuleConfig.ofDescription (.text text) = .ok (.found rule []) := by
  have hjson : Json.IsJson (RuleConfig.ruleObject rule []) :=
    .object (List.nodup_singleton _) (List.forall_mem_singleton.mpr (.text rule))
  obtain ⟨hwrite, hread⟩ := hjson.read_dumped h
  obtain ⟨htrimmed, hmarker⟩ := RuleConfig.ruleObject_text hwrite
  have hmarked : RuleConfig.carrier? (.text text) = some text :=
    if_pos (Text.containsRun_iff.mpr hmarker)
  simp only [RuleConfig.ofDescription, hmarked, htrimmed.trim, hread]
  rw [RuleConfig.ofValue_ruleObject hrule (List.not_mem_nil)]
  rfl

/-- A column of numbers with an integer as the default. -/
def tally (n : Int) : Column :=
  ⟨"tally", "Tally", .number,
    .text ((Json.dumped? false (RuleConfig.ruleObject (String.ofList (numberRule n)) [])).getD ""),
    .null⟩

theorem declared_tally (hn : Value.IsShort n) : declared? (tally n) = .ok (some (.int n)) := by
  obtain ⟨r, hr, hdefault⟩ := ofText_numberRule hn
  have hjson : Json.IsJson (RuleConfig.ruleObject (String.ofList (numberRule n)) []) :=
    .object (List.nodup_singleton _) (List.forall_mem_singleton.mpr (.text _))
  obtain ⟨text, htext⟩ := Option.isSome_iff_exists.mp
    ((hjson.isSome_dumped? false).trans (by rfl))
  have hrule : Text.isBlankText (String.ofList (numberRule n)) = false := by
    rw [Text.isBlankText, String.toList_ofList]
    rfl
  have hfound := found_of_dumped hrule htext
  simp only [declared?, tally, htext, Option.getD_some, hfound, hr, hdefault]

theorem toDouble?_of_large (h : (2 : ℚ) ^ (1024 : Int) ≤ n) : (Number.int n).toDouble? = none := by
  have hlarge : (2 : ℚ) ^ (1024 : Int) ≤ n * 2 ^ (0 : Int) := by rwa [zpow_zero, mul_one]
  rw [Number.toDouble?, Number.Binary64.ofInt, Number.Binary64.ofScaled_infinite hlarge]
  rfl

/-- An integer that can be read and is too large for a double breaks the resolution off. -/
theorem tally_unresolvable (hn : Value.IsShort n) (hlarge : (2 : ℚ) ^ (1024 : Int) ≤ n) :
    Unresolvable (tally n) :=
  .inr ⟨.int n, declared_tally hn, .number rfl (toDouble?_of_large hlarge)⟩

theorem isShort_power {k : Nat} (hk : k < Number.digitLimit) : Value.IsShort (10 ^ k) := by
  rw [Value.isShort_iff, Int.natAbs_pow]
  generalize Number.digitLimit = limit at hk ⊢
  exact Nat.pow_lt_pow_right (by decide) hk

theorem large_power {k : Nat} (hk : 39 * 8 ≤ k) :
    (2 : ℚ) ^ (1024 : Int) ≤ (10 ^ k : Int) := by
  calc
    (2 : ℚ) ^ (1024 : Int) = 2 ^ (128 * 8) := zpow_natCast 2 (128 * 8)
    _ = (2 ^ 128) ^ 8 := pow_mul ..
    _ ≤ (10 ^ 39) ^ 8 := by
      gcongr
      norm_num
    _ = 10 ^ (39 * 8) := (pow_mul ..).symm
    _ ≤ 10 ^ k := pow_le_pow_right₀ (by norm_num) hk
    _ = (10 ^ k : Int) := by push_cast; rfl

end Defaults

end TableAudit
