import TableAudit.Proofs.Fault
import TableAudit.Proofs.Number.Reading
import TableAudit.Rule.Reading

/-!
# Rules that are not even refused

What is wrong with the text of a rule is reported as a mistake, but for a few things at which the
reading breaks off with a fault: a number of too many digits or with separators around it, a count
that is not finite, a duration whose sum is not, and a pattern that cannot be built. The text of a
rule leads to a fault exactly if it has one of these defects where it is come to before a mistake.
-/

namespace TableAudit

open TableAudit.Number (Binary64)

/-! ### Durations -/

namespace Duration

variable {v : Value}

/-- A duration that is no finite number of milliseconds. -/
def Unbounded : Value → Prop
  | .bool _ => False
  | .int _ => False
  | .float x => x.isFinite = false
  | v => ∃ total, sumParts v ((canonical v.plain.toList).length + 1) (Binary64.zero false)
      (canonical v.plain.toList) = .ok total ∧ total.isFinite = false

theorem rounded_error_iff {total : Binary64} :
    (∃ f, rounded total = .error f) ↔ total.isFinite = false := by
  cases total <;> simp [rounded, Binary64.roundEven?, Binary64.isFinite]

theorem sumParts_blank {source : Value} {fuel : Nat} {total : Binary64} {cs : List Char}
    (hcs : cs.all Text.isBlank = true) (hf : cs.length < fuel) :
    sumParts source fuel total cs = .ok total := by
  induction cs generalizing fuel with
  | nil => simp [sumParts]
  | cons c cs ih =>
      obtain ⟨fuel, rfl⟩ := Nat.exists_eq_succ_of_ne_zero (Nat.ne_of_gt (Nat.zero_lt_of_lt hf))
      simp only [List.all_cons, Bool.and_eq_true] at hcs
      rw [sumParts, if_pos hcs.1, ih hcs.2 (by simpa using hf)]

theorem ofText_fault_iff (source : Value) (s : List Char) :
    (∃ f, ofText source s = .error (.fault f)) ↔
      ∃ total, sumParts source ((canonical s).length + 1) (Binary64.zero false) (canonical s) =
        .ok total ∧ total.isFinite = false := by
  have hblank (h : (canonical s).all Text.isBlank = true) : ¬ ∃ total, sumParts source
      ((canonical s).length + 1) (Binary64.zero false) (canonical s) = .ok total ∧
        total.isFinite = false := by
    rintro ⟨total, ht, hfinite⟩
    rw [sumParts_blank h (Nat.lt_succ_self _)] at ht
    cases ht
    simp [Binary64.zero, Binary64.isFinite] at hfinite
  simp only [ofText]
  split
  next he => simpa using hblank (by simp [List.isEmpty_iff.mp he])
  next =>
    split
    next hb => simpa using hblank hb
    next =>
      cases sumParts source ((canonical s).length + 1) (Binary64.zero false) (canonical s) with
      | error m => simp
      | ok total =>
          simp only [Except.ok.injEq, exists_eq_left', ← rounded_error_iff]
          cases rounded total <;> simp [Except.mapError]

theorem null_bounded : ¬ Unbounded .null := by
  rintro ⟨total, ht, -⟩
  have hnone : sumParts .null ((canonical (Value.plain .null).toList).length + 1)
      (Binary64.zero false) (canonical (Value.plain .null).toList) =
        .error (.malformed .null) := by rfl
  rw [hnone] at ht
  cases ht

/-- Reading a duration breaks off exactly if it is not finite. -/
theorem ofValue_fault_iff : (∃ f, ofValue v = .error (.fault f)) ↔ Unbounded v := by
  cases v with
  | bool b => simp [ofValue, Unbounded]
  | int n => simp [ofValue, Unbounded]
  | float x => cases x <;> simp [ofValue, Unbounded, Binary64.truncate?, Binary64.isFinite]
  | _ =>
      simp only [ofValue, Unbounded]
      exact ofText_fault_iff _ _

end Duration

namespace Rule

variable {ps : Properties} {key source : String} {α β : Type} {cs piece raw : List Char}

/-- Something breaks off with a fault. -/
def Faulty (x : Except Refusal α) : Prop :=
  ∃ f, x = .error (.fault f)

theorem faulty_bind {x : Except Refusal α} {g : α → Except Refusal β} :
    Faulty (x >>= g) ↔ Faulty x ∨ ∃ a, x = .ok a ∧ Faulty (g a) := by
  cases x <;> simp [Faulty, bind, Except.bind]

theorem faulty_map {x : Except Refusal α} {g : α → β} : Faulty (x.map g) ↔ Faulty x := by
  cases x <;> simp [Faulty, Except.map]

theorem not_faulty_ok (a : α) : ¬ Faulty (.ok a) := by
  simp [Faulty]

theorem not_faulty_wrong (m : Mistake) : ¬ Faulty (wrong m : Except Refusal α) := by
  simp [Faulty, wrong]

theorem not_faulty_number (ps : Properties) (key : String) : ¬ Faulty (number? ps key) := by
  unfold number?
  split
  · exact not_faulty_ok _
  · exact not_faulty_ok _
  · exact not_faulty_ok _
  · exact not_faulty_wrong _

theorem not_faulty_flag (ps : Properties) (key : String) (b : Bool) : ¬ Faulty (flag ps key b) := by
  unfold flag
  split
  · exact not_faulty_ok _
  · exact not_faulty_wrong _

theorem not_faulty_texts (key : String) (v : Value) : ¬ Faulty (texts key v) := by
  unfold texts
  split
  · exact not_faulty_ok _
  · exact not_faulty_wrong _
  · exact not_faulty_ok _
  · exact not_faulty_wrong _

theorem not_faulty_common (ps : Properties) : ¬ Faulty (readCommon ps) := by
  simp [readCommon, faulty_bind, not_faulty_flag, not_faulty_ok]

/-! ### Properties written the short way -/

/-- A value that looks like a number and cannot be read as one: separators stand around it, or it
is an integer of too many digits. -/
def Unreadable (raw : List Char) : Prop :=
  Text.lower (TableAudit.Text.trimChars raw) ≠ "true".toList ∧
    TableAudit.Text.lower (TableAudit.Text.trimChars raw) ≠ "false".toList ∧
    ∃ f, TableAudit.Number.form? (TableAudit.Text.trimChars raw) = some f ∧
      (TableAudit.Number.unspaced raw ≠ TableAudit.Text.trimChars raw ∨
        f.isInteger = true ∧ TableAudit.Number.digitLimit < f.whole.length)

theorem scalar_error_iff : (∃ e, scalar raw = .error e) ↔ Unreadable raw := by
  simp only [scalar, Unreadable]
  split
  next h => simp [h]
  next ht =>
    split
    next h => simp [h]
    next hf =>
      cases hform : TableAudit.Number.form? (TableAudit.Text.trimChars raw) with
      | none => simp
      | some f =>
          simp only [ne_eq, ht, hf, not_false_eq_true, true_and, Option.some.injEq, exists_eq_left']
          cases hi : f.isInteger with
          | true =>
              simp only [if_true, true_and, map_error_iff]
              exact TableAudit.Number.readInteger_error_iff hform hi
          | false =>
              simp only [Bool.false_eq_true, if_false, false_and, or_false]
              rw [← ne_eq, ← TableAudit.Number.readDouble_none_iff hform]
              cases TableAudit.Number.readDouble? raw <;> simp

/-- A piece between bars spells a property whose value cannot be read. -/
def Spoils (piece : List Char) : Prop :=
  ∃ key raw, TableAudit.Text.cutAt? ':' (TableAudit.Text.trimChars piece) = some (key, raw) ∧
    Unreadable raw

theorem addPiece_error_iff (ps : Properties) :
    (∃ e, addPiece ps piece = .error e) ↔ Spoils piece := by
  simp only [addPiece, Spoils]
  split
  next h => simp [List.isEmpty_iff.mp h, TableAudit.Text.cutAt?]
  next =>
    cases TableAudit.Text.cutAt? ':' (TableAudit.Text.trimChars piece) with
    | none => simp
    | some cut =>
        simp only [Option.some.injEq, map_error_iff, scalar_error_iff]
        constructor
        · exact fun h => ⟨_, _, rfl, h⟩
        · rintro ⟨key, raw, rfl, h⟩
          exact h

theorem addPieces_error_iff (pieces : List (List Char)) :
    (∃ e, pieces.foldlM addPiece ps = .error e) ↔ ∃ piece ∈ pieces, Spoils piece := by
  induction pieces generalizing ps with
  | nil => simp [pure, Except.pure]
  | cons piece pieces ih =>
      simp only [List.foldlM_cons, List.mem_cons, exists_eq_or_imp]
      rw [← addPiece_error_iff ps]
      cases addPiece ps piece with
      | error e => simp [bind, Except.bind]
      | ok ps' => simp [bind, Except.bind, ih]

/-- The text of a rule is an object with an integer of too many digits in it, or it has a property
whose value cannot be read. -/
def Garbled (source : String) : Prop :=
  let cs := TableAudit.Text.trimChars source.toList
  if cs.head? = some '\x7b' then Json.read (String.ofList cs) = .error .digitLimit
  else ∃ piece ∈ (TableAudit.Text.splitAll '|' cs).tail, Spoils piece

theorem faulty_mapError {x : Except Fault α} :
    Faulty (x.mapError Refusal.fault) ↔ ∃ f, x = .error f := by
  cases x <;> simp [Faulty, Except.mapError]

theorem ofObject_faulty_iff : Faulty (ofObject source) ↔ Json.read source = .error .digitLimit := by
  unfold ofObject
  split
  next m h => simp [h, Faulty]
  next h => simp [h, Faulty]
  next entries h =>
    split <;> simp [h, Faulty]
  next h => simp [h, Faulty]

theorem ofShort_error_iff : (∃ e, ofShort cs = .error e) ↔
    ∃ piece ∈ (TableAudit.Text.splitAll '|' cs).tail, Spoils piece := by
  unfold ofShort
  split
  next h => simp [h]
  next type pieces h => rw [h, List.tail_cons, addPieces_error_iff]

theorem properties_faulty_iff : Faulty (properties source) ↔ Garbled source := by
  simp only [properties, Garbled]
  split
  next h => simp [h, Faulty, TableAudit.Text.splitAll]
  next cs h => rw [h, ofObject_faulty_iff, List.head?_cons, if_pos rfl]
  next cs hne hobject =>
    rw [faulty_mapError, ofShort_error_iff, if_neg]
    intro hhead
    obtain ⟨rest, hrest⟩ := List.head?_eq_some_iff.mp hhead
    exact hobject rest hrest

/-! ### Demands -/

/-- A number that is no count and is not refused as one: an undefined number and positive
infinity. -/
def Uncountable (n : Option TableAudit.Number) : Prop :=
  n = some (.float .nan) ∨ n = some (.float (.infinity false))

theorem count_faulty_iff {n : Option TableAudit.Number} :
    Faulty (count? key n) ↔ Uncountable n := by
  cases n with
  | none => simp [count?, Faulty, Uncountable]
  | some n =>
      rw [count?, faulty_map, Uncountable, Option.some.injEq, Option.some.injEq]
      cases n with
      | int n =>
          rw [count]
          split <;> simp [Faulty, wrong]
      | float x =>
          cases x with
          | nan => simp [count, Faulty, Binary64.compareInt?, Binary64.truncate?]
          | infinity negative =>
              cases negative <;>
                simp [count, Faulty, wrong, Binary64.compareInt?, Binary64.truncate?]
          | finite negative m e =>
              simp only [count, Binary64.truncate?, reduceCtorEq, TableAudit.Number.float.injEq,
                or_self, iff_false]
              split
              · exact not_faulty_wrong _
              · split
                · exact not_faulty_ok _
                · exact not_faulty_wrong _

/-- The keys of the counts in a rule for texts, in the order in which they are read. -/
def countKeys : List String :=
  ["min", "max", "length"]

/-- Counts are read in turn, and the first that is wrong is one at which the reading breaks off. -/
def Miscounted (ps : Properties) : Prop :=
  (∀ key ∈ countKeys, ∃ n, number? ps key = .ok n) ∧
    ∃ before key after, countKeys = before ++ key :: after ∧
      (∀ k ∈ before, ∀ n, number? ps k = .ok n → ∃ m, count? k n = .ok m) ∧
      ∃ n, number? ps key = .ok n ∧ Uncountable n

theorem pattern_faulty_iff : Faulty (pattern? ps) ↔
    ∃ s f, ps.get "pattern" = .text s ∧ Pattern.ofText? s = .error (.fault f) := by
  unfold pattern?
  split
  next h => simp [h, Faulty]
  next s h =>
    split
    next p hp => simp [h, hp, Faulty]
    next m hp => simp [h, hp, Faulty, wrong]
    next f hp => simp [h, hp, Faulty]
  next hnull htext =>
    simp only [not_faulty_wrong, false_iff, not_exists, not_and]
    exact fun s f hs _ => htext s hs

theorem miscounted_iff : Miscounted ps ↔
    ∃ least, number? ps "min" = .ok least ∧ ∃ most, number? ps "max" = .ok most ∧
      ∃ exact, number? ps "length" = .ok exact ∧
        (Uncountable least ∨ ∃ n, count? "min" least = .ok n ∧
          (Uncountable most ∨ ∃ n, count? "max" most = .ok n ∧ Uncountable exact)) := by
  constructor
  · rintro ⟨hall, before, key, after, hkeys, hbefore, n, hn, huncountable⟩
    obtain ⟨least, hleast⟩ := hall "min" (by simp [countKeys])
    obtain ⟨most, hmost⟩ := hall "max" (by simp [countKeys])
    obtain ⟨exact, hexact⟩ := hall "length" (by simp [countKeys])
    refine ⟨least, hleast, most, hmost, exact, hexact, ?_⟩
    match before with
    | [] =>
        obtain ⟨rfl, -⟩ := List.cons.inj hkeys
        obtain rfl := Except.ok.inj (hleast.symm.trans hn)
        exact Or.inl huncountable
    | [first'] =>
        obtain ⟨rfl, hrest⟩ := List.cons.inj hkeys
        obtain ⟨rfl, -⟩ := List.cons.inj hrest
        obtain rfl := Except.ok.inj (hmost.symm.trans hn)
        obtain ⟨m, hm⟩ := hbefore "min" (by simp) _ hleast
        exact Or.inr ⟨m, hm, Or.inl huncountable⟩
    | [first', second] =>
        obtain ⟨rfl, hrest⟩ := List.cons.inj hkeys
        obtain ⟨rfl, hrest'⟩ := List.cons.inj hrest
        obtain ⟨rfl, -⟩ := List.cons.inj hrest'
        obtain rfl := Except.ok.inj (hexact.symm.trans hn)
        obtain ⟨m, hm⟩ := hbefore "min" (by simp) _ hleast
        obtain ⟨m', hm'⟩ := hbefore "max" (by simp) _ hmost
        exact Or.inr ⟨m, hm, Or.inr ⟨m', hm', huncountable⟩⟩
    | _ :: _ :: _ :: rest =>
        have hlength := congrArg List.length hkeys
        simp only [countKeys, List.length_append, List.length_cons, List.length_nil] at hlength
        omega
  · rintro ⟨least, hleast, most, hmost, exact, hexact, hcases⟩
    refine ⟨by simp [countKeys, hleast, hmost, hexact], ?_⟩
    obtain h | ⟨m, hm, h | ⟨m', hm', h⟩⟩ := hcases
    · exact ⟨[], "min", ["max", "length"], rfl, by simp, least, hleast, h⟩
    · exact ⟨["min"], "max", ["length"], rfl, by simp [hleast, hm], most, hmost, h⟩
    · exact ⟨["min", "max"], "length", [], rfl, by simp [hleast, hmost, hm, hm'], exact, hexact, h⟩

/-- A rule for texts breaks off at its pattern, or at a count. -/
theorem readText_faulty_iff : Faulty (readText ps) ↔
    Faulty (pattern? ps) ∨ (∃ p, pattern? ps = .ok p) ∧ Miscounted ps := by
  rw [miscounted_iff, ← exists_and_right]
  cases he : ps.get? "enum" with
  | none =>
      simp only [readText, he, faulty_bind, not_faulty_number, not_faulty_common, not_faulty_flag,
        not_faulty_ok, count_faulty_iff, false_or, and_false, exists_false, or_false]
  | some v =>
      simp only [readText, he, faulty_bind, faulty_map, not_faulty_number, not_faulty_common,
        not_faulty_flag, not_faulty_texts, not_faulty_ok, count_faulty_iff, false_or, and_false,
        exists_false, or_false]

theorem expiry_faulty_iff : Faulty (expiry? ps) ↔ Duration.Unbounded (ps.get "expire") := by
  unfold expiry?
  split
  next h =>
    rw [h]
    exact iff_of_false (not_faulty_ok _) Duration.null_bounded
  next h =>
    rw [h]
    exact iff_of_false (not_faulty_ok _) id
  next hnull hfalse =>
    rw [← Duration.ofValue_fault_iff]
    cases Duration.ofValue (ps.get "expire") with
    | ok millis => simp [not_faulty_ok]
    | error e => cases e <;> simp [Faulty, wrong]

/-- A rule for dates breaks off at its expiry. -/
theorem readDate_faulty_iff : Faulty (readDate ps) ↔ Duration.Unbounded (ps.get "expire") := by
  simp only [readDate, faulty_bind, not_faulty_common, not_faulty_flag, not_faulty_ok,
    expiry_faulty_iff, and_false, exists_false, or_false]

theorem not_faulty_readNumber (ps : Properties) : ¬ Faulty (readNumber ps) := by
  simp only [readNumber, faulty_bind, not_faulty_common, not_faulty_number, not_faulty_flag,
    not_faulty_ok, and_false, exists_false, or_false, not_false_eq_true]

theorem not_faulty_readBoolean (ps : Properties) : ¬ Faulty (readBoolean ps) := by
  simp only [readBoolean, faulty_bind, not_faulty_common, not_faulty_flag, not_faulty_ok,
    and_false, exists_false, or_false, not_false_eq_true]

theorem not_faulty_readChoice (ps : Properties) : ¬ Faulty (readChoice ps) := by
  unfold readChoice
  split
  · exact not_faulty_wrong _
  · simp only [faulty_bind, not_faulty_common, not_faulty_texts, not_faulty_ok, and_false,
      exists_false, or_false, not_false_eq_true]

/-- The type that properties name. -/
def typeOf (ps : Properties) : String :=
  TableAudit.Text.trim (ps.get "type").plain

theorem ofProperties_faulty_iff : Faulty (ofProperties ps) ↔
    typeOf ps = "string" ∧
        (Faulty (pattern? ps) ∨ (∃ p, pattern? ps = .ok p) ∧ Miscounted ps) ∨
      typeOf ps = "date" ∧ Duration.Unbounded (ps.get "expire") := by
  unfold ofProperties
  rw [← typeOf]
  split
  next h => simp [h, faulty_map, readText_faulty_iff]
  next h => simp [h, faulty_map, not_faulty_readNumber]
  next h => simp [h, faulty_map, readDate_faulty_iff]
  next h => simp [h, faulty_map, not_faulty_readBoolean]
  next h => simp [h, faulty_map, not_faulty_common]
  next h => simp [h, faulty_map, not_faulty_readChoice]
  next hs _ hd _ _ _ =>
    refine iff_of_false (not_faulty_wrong _) ?_
    rintro (⟨h, -⟩ | ⟨h, -⟩)
    · exact hs h
    · exact hd h

/-- The text of a rule has a defect, at which the reading breaks off instead of refusing it. -/
inductive Defect (source : String) : Prop
  /-- A number in it cannot be read. -/
  | garbled (unread : Garbled source)
  /-- Its pattern cannot be built. -/
  | pattern (ps : Properties) (s : String) (f : Fault) (read : properties source = .ok ps)
      (type : typeOf ps = "string") (text : ps.get "pattern" = .text s)
      (unbuilt : Pattern.ofText? s = .error (.fault f))
  /-- One of its counts is not finite. -/
  | count (ps : Properties) (read : properties source = .ok ps) (type : typeOf ps = "string")
      (built : ∃ p, pattern? ps = .ok p) (miscounted : Miscounted ps)
  /-- Its expiry is not finite. -/
  | expiry (ps : Properties) (read : properties source = .ok ps) (type : typeOf ps = "date")
      (unbounded : Duration.Unbounded (ps.get "expire"))

/-- The reading of a rule breaks off exactly if its text has a defect. -/
theorem ofText_faulty_iff : Faulty (ofText source) ↔ Defect source := by
  rw [ofText, faulty_bind, properties_faulty_iff]
  constructor
  · rintro (h | ⟨ps, hps, h⟩)
    · exact .garbled h
    · obtain ⟨ht, hp | ⟨hp, hm⟩⟩ | ⟨ht, hu⟩ := ofProperties_faulty_iff.mp h
      · obtain ⟨s, f, hs, hf⟩ := pattern_faulty_iff.mp hp
        exact .pattern ps s f hps ht hs hf
      · exact .count ps hps ht hp hm
      · exact .expiry ps hps ht hu
  · intro h
    cases h with
    | garbled h => exact Or.inl h
    | pattern ps s f hps ht hs hf =>
        have hp := pattern_faulty_iff.mpr ⟨s, f, hs, hf⟩
        exact Or.inr ⟨ps, hps, ofProperties_faulty_iff.mpr (Or.inl ⟨ht, Or.inl hp⟩)⟩
    | count ps hps ht hp hm =>
        exact Or.inr ⟨ps, hps, ofProperties_faulty_iff.mpr (Or.inl ⟨ht, Or.inr ⟨hp, hm⟩⟩)⟩
    | expiry ps hps ht hu =>
        exact Or.inr ⟨ps, hps, ofProperties_faulty_iff.mpr (Or.inr ⟨ht, hu⟩)⟩

end Rule

end TableAudit
