import TableAudit.Cell.Normal
import TableAudit.Check.Basic
import TableAudit.Proofs.Calendar.Epoch
import TableAudit.Proofs.Check.Obstacles
import TableAudit.Proofs.Number.Digits
import TableAudit.Proofs.Pass.Uniqueness

/-!
# Integers in cells

The normal text of an integer is its digits, or an instant for the integers that are taken as
milliseconds. Seconds are computed as a double, so an instant can fall short of its integer, though
by little; cut to milliseconds, it then shows the integer before. So the texts of two integers are
equal only if one follows the other and falls short while the other does not. Small enough integers
never fall short.
-/

namespace TableAudit

open TableAudit.Calendar

namespace Calendar.Moment

variable {m m' : Moment} {t t' : Int}

theorem instant?_ofInstant? (h : ofInstant? t = some m) : m.InCalendar ∧ m.localMicros = t := by
  obtain ⟨hdate, hmicros, hlocal, hoffset⟩ := localMicros_ofLocalMicros? h
  refine ⟨⟨hdate, hmicros, fun o ho => ?_⟩, hlocal⟩
  rw [hoffset, Option.mem_some_iff] at ho
  rw [← ho]
  decide

/-- The text of a moment with milliseconds shows its instant cut to them. -/
theorem millisText_eq_iff (h : ofInstant? t = some m) (h' : ofInstant? t' = some m') :
    m.millisText = m'.millisText ↔ t / 1000 = t' / 1000 := by
  constructor
  · intro htext
    obtain ⟨hm, rfl⟩ := instant?_ofInstant? h
    obtain ⟨hm', rfl⟩ := instant?_ofInstant? h'
    have hread := (shows_millisText hm).read
    rw [htext, (shows_millisText hm').read, Option.some.injEq, Moment.mk.injEq] at hread
    obtain ⟨hdate, hmicros, -⟩ := hread
    simp only [localMicros, hdate, day, second]
    omega
  · intro hcut
    have hdays : t.fdiv day = t'.fdiv day := by
      simp only [Int.fdiv_eq_ediv, day, second]
      omega
    have hwhole : (t.fmod day).toNat / second = (t'.fmod day).toNat / second := by
      simp only [Int.fmod_eq_emod, day, second]
      omega
    have hmillis : (t.fmod day).toNat % second / 1000 = (t'.fmod day).toNat % second / 1000 := by
      simp only [Int.fmod_eq_emod, day, second]
      omega
    simp only [ofInstant?, ofLocalMicros?, Option.map_eq_some_iff] at h h'
    obtain ⟨d, hd, rfl⟩ := h
    obtain ⟨d', hd', rfl⟩ := h'
    rw [hdays, hd', Option.some.injEq] at hd
    simp only [millisText, hd, hwhole, hmillis]

end Calendar.Moment

namespace Cell

open Calendar.Moment (ofMillis? endMillis)

variable {a b n : Int}

/-- The normal text of an integer in a cell. -/
def integerText (n : Int) : String :=
  (Cell.number (.int n)).normal

/-- Whether the moment of a number of milliseconds falls short of it. -/
def fallsShort (n : Int) : Bool :=
  (ofMillis? (.int n)).any fun m => m.localMicros < n * 1000

/-- Whether an integer and the next are both taken as milliseconds and shown as one instant. -/
def Merges (a b : Int) : Prop :=
  b = a + 1 ∧ 1000000000000 < a ∧ fallsShort a = false ∧ fallsShort b = true

instance : Decidable (Merges a b) :=
  inferInstanceAs (Decidable (_ ∧ _))

theorem instantText?_eq (n : Number) : instantText? n = (ofMillis? n).map (·.millisText) := by
  rw [instantText?, ofMillis?]
  cases n.divNat? 1000 with
  | none => rfl
  | some x => cases hx : Moment.ofEpoch? x <;> simp [hx]

theorem integerText_eq (n : Int) : integerText n =
    if 1000000000000 < n then ((ofMillis? (.int n)).map (·.millisText)).getD (toString n)
    else toString n := by
  have hlt : timestampThreshold.lt (.int n) = decide (1000000000000 < n) := by
    rw [Bool.eq_iff_iff, decide_eq_true_eq]
    simp [timestampThreshold, Number.lt, Number.compare?, Int.compare_eq_lt]
  rw [integerText, normal, hlt, instantText?_eq]
  simp only [decide_eq_true_eq]
  rfl

/-- An integer that is shown as an instant. -/
structure ShownAs (n t : Int) (m : Moment) : Prop where
  above : 1000000000000 < n
  below : n < endMillis
  instant : Moment.ofInstant? t = some m
  text : integerText n = m.millisText
  near : |t - n * 1000| < 17
  exact : n ≤ 2 ^ 33 * 1000 → t = n * 1000
  short : fallsShort n = decide (t < n * 1000)

/-- An integer is shown as an instant or by its digits. -/
theorem shown_or_digits (n : Int) : (∃ t m, ShownAs n t m) ∨
    integerText n = toString n ∧ (1000000000000 < n → endMillis ≤ n ∧ fallsShort n = false) := by
  by_cases habove : 1000000000000 < n
  · by_cases hbelow : n < endMillis
    · obtain ⟨t, ht, hnear, hexact⟩ := Moment.ofMillis?_spec (by omega) hbelow
      have hyears : InYears t := by
        rw [abs_lt] at hnear
        simp only [InYears, endMillis] at hbelow ⊢
        omega
      obtain ⟨m, hm⟩ : ∃ m, Moment.ofInstant? t = some m :=
        Option.isSome_iff_exists.mp (Moment.ofLocalMicros?_isSome_iff.mpr hyears)
      have hmillis := ht.trans hm
      refine Or.inl ⟨t, m, habove, hbelow, hm, ?_, hnear, hexact, ?_⟩
      · rw [integerText_eq, if_pos habove, hmillis]
        rfl
      · rw [fallsShort, hmillis, Option.any_some, (Moment.instant?_ofInstant? hm).2]
    · have hnone := Moment.ofMillis?_eq_none (not_lt.mp hbelow)
      refine Or.inr ⟨?_, fun _ => ⟨not_lt.mp hbelow, ?_⟩⟩
      · rw [integerText_eq, if_pos habove, hnone]
        rfl
      · rw [fallsShort, hnone]
        rfl
  · exact Or.inr ⟨by rw [integerText_eq, if_neg habove], fun h => absurd h habove⟩

theorem ShownAs.shows {t : Int} {m : Moment} (h : ShownAs n t m) :
    ∃ m', Moment.Shows m' (integerText n) :=
  ⟨_, h.text ▸ Moment.shows_millisText (Moment.instant?_ofInstant? h.instant).1⟩

theorem ShownAs.ne_toString {t : Int} {m : Moment} (h : ShownAs n t m) (k : Int) :
    integerText n ≠ toString k := by
  intro heq
  obtain ⟨m', hm'⟩ := h.shows
  have hform := hm'.not_number
  rw [heq, Number.form?_toString] at hform
  cases hform

theorem integerText_not_blank (n : Int) : ∀ c ∈ (integerText n).toList, Text.isBlank c = false := by
  obtain ⟨t, m, h⟩ | ⟨h, -⟩ := shown_or_digits n
  · obtain ⟨m', hm'⟩ := h.shows
    exact hm'.not_blank
  · rw [h]
    exact Number.toString_not_blank n

/-- Two integers have one normal text exactly if they are equal or merge. -/
theorem integerText_eq_iff (a b : Int) :
    integerText a = integerText b ↔ a = b ∨ Merges a b ∨ Merges b a := by
  by_cases hab : a = b
  · simp [hab]
  obtain ⟨t, m, ha⟩ | ⟨ha, ha'⟩ := shown_or_digits a <;>
    obtain ⟨u, m', hb⟩ | ⟨hb, hb'⟩ := shown_or_digits b
  · have hnear := abs_lt.mp ha.near
    have hnear' := abs_lt.mp hb.near
    have habove := ha.above
    have habove' := hb.above
    rw [ha.text, hb.text, Moment.millisText_eq_iff ha.instant hb.instant]
    simp only [Merges, ha.short, hb.short, decide_eq_true_eq, decide_eq_false_iff_not]
    omega
  · have habove := ha.above
    have hbelow := ha.below
    rw [hb, iff_false_left (ha.ne_toString b)]
    rintro (h | ⟨rfl, -, -, hshort⟩ | ⟨rfl, hb1, -, -⟩)
    · exact hab h
    · rw [(hb' (by omega)).2] at hshort
      cases hshort
    · have := (hb' hb1).1
      omega
  · have habove := hb.above
    have hbelow := hb.below
    rw [ha, eq_comm, iff_false_left (hb.ne_toString a)]
    rintro (h | ⟨rfl, ha1, -, -⟩ | ⟨rfl, -, -, hshort⟩)
    · exact hab h
    · have := (ha' ha1).1
      omega
    · rw [(ha' (by omega)).2] at hshort
      cases hshort
  · rw [ha, hb, Number.toString_injective.eq_iff]
    refine ⟨Or.inl, ?_⟩
    rintro (h | ⟨rfl, ha1, -, hshort⟩ | ⟨rfl, hb1, -, hshort⟩)
    · exact h
    · rw [(hb' (by omega)).2] at hshort
      cases hshort
    · rw [(ha' (by omega)).2] at hshort
      cases hshort

/-- No integers merge where the division is exact enough. -/
theorem Merges.large (h : Merges a b) : 2 ^ 33 * 1000 ≤ a ∧ b < endMillis := by
  obtain ⟨rfl, habove, -, hshort⟩ := h
  obtain ⟨t, m, hb⟩ | ⟨-, hb⟩ := shown_or_digits (a + 1)
  · refine ⟨?_, hb.below⟩
    by_contra hlt
    rw [hb.short, hb.exact (by omega)] at hshort
    simp at hshort
  · rw [(hb (by omega)).2] at hshort
    cases hshort

theorem integerText_ne_empty (n : Int) : integerText n ≠ "" := by
  intro h
  obtain ⟨t, m, ht⟩ | ⟨hn, -⟩ := shown_or_digits n
  · obtain ⟨m', hm'⟩ := ht.shows
    have hmem := hm'.mem_letter
    rw [h] at hmem
    cases hmem
  · have hnil := Number.toString_toList n
    rw [← hn, h] at hnil
    exact Nat.toDigits_ne_nil (List.append_eq_nil_iff.mp hnil.symm).2

/-- Among integer cells, those that count as repeats of an integer are the ones that hold it and
the ones that merge with it. -/
theorem count_keysOf_integers (ns : List Int) (a : Int) :
    (Check.keysOf (ns.map fun n => .text (integerText n))).count (Text.trim (integerText a)) =
      ns.countP fun n => n = a ∨ Merges n a ∨ Merges a n := by
  have htrim (n : Int) : Text.trim (integerText n) = integerText n :=
    Number.trim_eq_self (integerText_not_blank n)
  calc
    (Check.keysOf (ns.map fun n => .text (integerText n))).count (Text.trim (integerText a))
        = (Check.keysOf ((ns.map integerText).map .text)).count (integerText a) := by
      rw [List.map_map, htrim]
      rfl
    _ = ((ns.map integerText).map Text.trim).count (integerText a) := by
      rw [keysOf_texts, List.count_filter (by simpa using integerText_ne_empty a)]
    _ = ns.countP fun n => n = a ∨ Merges n a ∨ Merges a n := by
      rw [List.map_map, List.count, List.countP_map]
      refine List.countP_congr fun n _ => ?_
      simp [htrim, integerText_eq_iff]

/-- The normal texts of two integers are equal only if the integers are equal or merge, which
none do that are smaller than `2 ^ 33` seconds in milliseconds or beyond the calendar. So in a
column of integers just the equal and the merging ones count as repeats of each other. -/
theorem integers_kept_apart (a b : Int) :
    (integerText a = integerText b ↔ a = b ∨ Merges a b ∨ Merges b a) ∧
      (Merges a b → 2 ^ 33 * 1000 ≤ a ∧ b < endMillis) ∧
      ∀ ns : List Int,
        (Check.keysOf (ns.map fun n => .text (integerText n))).count (Text.trim (integerText a)) =
          ns.countP fun n => n = a ∨ Merges n a ∨ Merges a n :=
  ⟨integerText_eq_iff a b, Merges.large, fun ns => count_keysOf_integers ns a⟩

/-- The first integers that are merged. -/
theorem neighbours_merged : (8589934592000 : Int) ≠ 8589934592001 ∧
    (Cell.number (.int 8589934592000)).normal = (Cell.number (.int 8589934592001)).normal := by
  decide +kernel

end Cell

end TableAudit

/-!
## One instant, one verdict

An instant can stand in a cell in many ways: as a number of seconds or of milliseconds, as the text
of one, and as a date text on some clock. Whichever it is, the cell's normal text is read back as
the same instant. Whether that has expired is found on the clock of the date text, so a deadline
that this clock cannot show any more has no verdict; on the clock of universal time there is always
one, and it depends on the instant alone.
-/

namespace TableAudit

open TableAudit.Calendar (Moment InYears second)
open TableAudit.Number (Binary64)

namespace Number

variable {n : Number} {k : Int}

/-- A number, whether integer or double, that stands for an integer. -/
def Denotes (n : Number) (k : Int) : Prop :=
  match n with
  | .int m => m = k
  | .float x => x.isFinite = true ∧ x.value = k

theorem Denotes.int_lt_iff (h : n.Denotes k) (m : Int) : (Number.int m).lt n = decide (m < k) := by
  rw [Bool.eq_iff_iff, decide_eq_true_eq]
  cases n with
  | int m' =>
      obtain rfl : m' = k := h
      simp [Number.lt, Number.compare?, Int.compare_eq_lt]
  | float x =>
      obtain ⟨hfinite, hvalue⟩ := h
      have hgt := Binary64.compareInt?_gt_iff hfinite m
      rw [hvalue, Int.cast_lt] at hgt
      rw [← hgt]
      simp only [Number.lt, Number.compare?]
      cases x.compareInt? m with
      | none => simp
      | some o => cases o <;> simp [Ordering.swap]

theorem abs_finite {x : Binary64} (h : x.isFinite = true) :
    x.abs.isFinite = true ∧ x.abs.value = |x.value| := by
  match x, h with
  | .finite s m e, _ =>
      refine ⟨rfl, ?_⟩
      rw [Binary64.abs_value, Binary64.abs, Binary64.value_finite_nonneg]

/-- The text of a number that stands for an integer is the integer's. -/
theorem Denotes.numberText (h : n.Denotes k) (h0 : 0 ≤ k) (hk : k < 10 ^ 16) :
    Cell.numberText n = toString k := by
  cases n with
  | int m =>
      obtain rfl : m = k := h
      rfl
  | float x =>
      obtain ⟨hfinite, hvalue⟩ := h
      have hintegral : x.isIntegral = true := (Binary64.isIntegral_iff hfinite).mpr ⟨k, hvalue⟩
      have hsmall : x.abs.compareInt? 10000000000000000 = some .lt := by
        rw [Binary64.compareInt?_lt_iff (abs_finite hfinite).1, (abs_finite hfinite).2, hvalue,
          abs_of_nonneg (by exact_mod_cast h0)]
        exact_mod_cast hk
      have htruncate : x.truncate? = some k := by
        rw [Binary64.truncate?_of_nonneg (by rw [hvalue]; exact_mod_cast h0) hfinite, hvalue,
          Int.floor_intCast]
      simp [Cell.numberText, hintegral, hsmall, htruncate]

end Number

namespace Calendar.Moment

variable {n : Number} {s : Int} {x : Binary64}

/-- A double of whole seconds in milliseconds is divided without rounding. -/
theorem thousandth_exact (hx : x.isFinite = true) (hs : 0 < s) (hs' : s < 2 ^ 53)
    (hvalue : x.value = (s * 1000 : Int)) : (x.div (Binary64.ofInt (1000 : Nat))).isFinite = true ∧
      (x.div (Binary64.ofInt (1000 : Nat))).value = s := by
  obtain ⟨hthousand, htvalue⟩ := Binary64.ofInt_exact
    (Binary64.representable_int (show ((1000 : Nat) : Int).natAbs < 2 ^ 53 by decide))
  have hquot : x.value / (Binary64.ofInt (1000 : Nat)).value = s := by
    rw [hvalue, htvalue]
    push_cast
    rw [mul_div_cancel_right₀ _ (by norm_num)]
  have hrep : Binary64.Representable (x.value / (Binary64.ofInt (1000 : Nat)).value) :=
    hquot ▸ Binary64.representable_int (by omega)
  have hx0 : x.value ≠ 0 := by
    rw [hvalue]
    exact_mod_cast (show s * 1000 ≠ 0 by omega)
  have ht0 : (Binary64.ofInt (1000 : Nat)).value ≠ 0 := by
    rw [htvalue]
    norm_num
  obtain ⟨hfinite, hdiv⟩ := Binary64.div_exact hx hthousand hx0 ht0 hrep
  exact ⟨hfinite, hdiv.trans hquot⟩

/-- The moment of whole seconds that are counted in milliseconds, in either kind of number. -/
theorem ofMillis?_denoted (h : n.Denotes (s * 1000)) (hs : 0 < s) (hs' : s < 2 ^ 53) :
    ofMillis? n = ofInstant? (s * second) := by
  cases n with
  | int m =>
      obtain rfl : m = s * 1000 := h
      exact ofMillis?_of_seconds hs (by omega)
  | float x =>
      obtain ⟨hfinite, hvalue⟩ := h
      obtain ⟨hdiv, hquot⟩ := thousandth_exact hfinite hs hs' hvalue
      exact ofEpoch?_of_int hdiv hs.le (by omega) hquot

end Calendar.Moment

namespace Coercion

variable {s : Int} {m : Moment} {text : String} {convert : Bool} {x : Binary64}

/-- A text that shows a moment is read as it, in universal time if it shows no offset. -/
theorem date_of_shown (h : m.Shows text) :
    dateOfText convert text = .ok (.moment m.assumeUniversal) := by
  have htrim : Text.trim text = text := Number.trim_eq_self h.not_blank
  have hne : text.isEmpty = false := by
    rw [Bool.eq_false_iff, Ne, String.isEmpty_iff]
    rintro rfl
    cases h.mem_letter
  simp [dateOfText, htrim, hne, h.not_number, h.read]

theorem abs_lt_secondsBound {k : Int} (hx : x.isFinite = true) (h0 : 0 ≤ k) (hvalue : x.value = k) :
    (Number.float x).abs.lt secondsBound = decide (k < 100000000000) := by
  rw [Bool.eq_iff_iff, decide_eq_true_eq]
  obtain ⟨hfinite, habs⟩ := Number.abs_finite hx
  have hlt := Binary64.compareInt?_lt_iff hfinite 100000000000
  rw [habs, hvalue, abs_of_nonneg (by exact_mod_cast h0), Int.cast_lt] at hlt
  rw [← hlt]
  simp [Number.abs, Number.lt, Number.compare?, secondsBound]

/-- The digits of a number are read as the moment of the double that stands for it. -/
theorem date_of_digits {k : Int} (h0 : 0 ≤ k) (hk : k < 10 ^ 15) : ∃ x : Binary64,
    x.isFinite = true ∧ x.value = k ∧
      dateOfText true (toString k) = (ofEpoch (.float x)).map (momentOr (.text (toString k))) := by
  obtain ⟨f, hf⟩ : ∃ f, Number.form? (toString k).toList = some f :=
    ⟨_, Number.form?_toString k⟩
  obtain ⟨hfinite, hvalue⟩ := Number.double_toString (by omega) hf
  have htrim : Text.trim (toString k) = toString k :=
    Number.trim_eq_self (Number.toString_not_blank k)
  have hne : (toString k).isEmpty = false := by
    rw [Bool.eq_false_iff, Ne, String.isEmpty_iff]
    intro hempty
    rw [hempty] at hf
    cases hf
  refine ⟨f.double, hfinite, hvalue, ?_⟩
  simp only [dateOfText, htrim, hne, hf]
  rfl

theorem date_of_seconds (hs : 0 < s) (hs' : s < 100000000000)
    (hm : Moment.ofInstant? (s * second) = some m) :
    dateOfText true (toString s) = .ok (.moment m) := by
  obtain ⟨x, hfinite, hvalue, hdate⟩ := date_of_digits hs.le (by omega)
  rw [hdate, ofEpoch, abs_lt_secondsBound hfinite hs.le hvalue, if_pos (decide_eq_true hs'),
    ofSeconds?, Moment.ofEpoch?_of_int hfinite hs.le (by omega) hvalue, hm]
  rfl

theorem date_of_millis (hs : 100000000 ≤ s) (hs' : s < 100000000000)
    (hm : Moment.ofInstant? (s * second) = some m) :
    dateOfText true (toString (s * 1000)) = .ok (.moment m) := by
  obtain ⟨x, hfinite, hvalue, hdate⟩ :=
    date_of_digits (show 0 ≤ s * 1000 by omega) (by omega)
  obtain ⟨hdiv, hquot⟩ := Moment.thousandth_exact hfinite (by omega) (by omega) hvalue
  rw [hdate, ofEpoch, abs_lt_secondsBound hfinite (by omega) hvalue,
    if_neg (by simpa using by omega), Number.divNat?]
  simp only
  rw [Moment.ofEpoch?_of_int hdiv (by omega) (by omega) hquot, hm]
  rfl

end Coercion

namespace Cell

variable {s o : Int} {t : ColumnType} {n : Number} {m : Moment} {v : Value} {text : String}

/-- A column whose numbers are plain numbers. -/
def isPlain (t : ColumnType) : Prop :=
  unsupportedType? t = none ∧ holdsTime t = false

/-- Payloads that present the instant of a whole second, counted from the epoch, and the offset of
the clock on which they do. -/
inductive Presents (s : Int) : ColumnType → Value → Int → Prop
  | seconds {t : ColumnType} {n : Number} (plain : isPlain t) (denotes : n.Denotes s) :
      Presents s t n.toValue 0
  | millis {t : ColumnType} {n : Number} (plain : isPlain t) (denotes : n.Denotes (s * 1000)) :
      Presents s t n.toValue 0
  | secondsText {t : ColumnType} (looked : unsupportedType? t = none) :
      Presents s t (.text (toString s)) 0
  | millisText {t : ColumnType} (looked : unsupportedType? t = none) :
      Presents s t (.text (toString (s * 1000))) 0
  | time {t : ColumnType} {n : Number} (looked : unsupportedType? t = none)
      (time : holdsTime t = true) (denotes : n.Denotes (s * 1000)) : Presents s t n.toValue 0
  | dateText {t : ColumnType} {m : Moment} {text : String} (looked : unsupportedType? t = none)
      (shows : m.Shows text) (instant : m.localMicros - m.offset.getD 0 = s * second) :
      Presents s t (.text text) (m.offset.getD 0)

theorem normalText_text (h : unsupportedType? t = none) : normalText t (.text text) = text := by
  simp [normalText, ofPayload, h, normal]

theorem normalText_plain (h : isPlain t) (n : Number) :
    normalText t n.toValue = (Cell.number n).normal := by
  cases n <;> simp [normalText, ofPayload, Number.toValue, h.1, ofNumber, h.2]

theorem normalText_time (h : unsupportedType? t = none) (ht : holdsTime t = true) (n : Number) :
    normalText t n.toValue = (Cell.timestamp n).normal := by
  cases n <;> simp [normalText, ofPayload, Number.toValue, h, ofNumber, ht]

/-- The text of an instant in milliseconds is read as the instant, if it is a whole second. -/
theorem date_of_instantText (h : n.Denotes (s * 1000)) (hs : 0 < s) (hs' : s < 100000000000) :
    ∃ text, instantText? n = some text ∧
      ∃ m, Coercion.dateOfText true text = .ok (.moment m) ∧
        m.localMicros = s * second ∧ m.offset = some 0 := by
  have hyears : InYears (s * second) := by
    simp only [InYears, second]
    omega
  obtain ⟨m, hm⟩ : ∃ m, Moment.ofInstant? (s * second) = some m :=
    Option.isSome_iff_exists.mp (Moment.ofLocalMicros?_isSome_iff.mpr hyears)
  obtain ⟨hcalendar, hlocal⟩ := Moment.instant?_ofInstant? hm
  refine ⟨m.millisText, ?_, _, Coercion.date_of_shown (Moment.shows_millisText hcalendar), ?_, rfl⟩
  · rw [instantText?_eq, Moment.ofMillis?_denoted h hs (by omega), hm]
    rfl
  · have hwhole : m.micros / 1000 * 1000 = m.micros := by
      simp only [Moment.localMicros, Calendar.day, second] at hlocal
      omega
    simpa [Moment.localMicros, Moment.assumeUniversal, hwhole] using hlocal

/-- However an instant is presented, its normal text is read as it. -/
theorem date_of_presents (h : Presents s t v o) (hs : 1000000000 < s) (hs' : s < 100000000000) :
    ∃ m, Coercion.dateOfText true (normalText t v) = .ok (.moment m) ∧
      m.localMicros = s * second + o ∧ m.offset = some o := by
  have hyears : InYears (s * second) := by
    simp only [InYears, second]
    omega
  obtain ⟨m, hm⟩ : ∃ m, Moment.ofInstant? (s * second) = some m :=
    Option.isSome_iff_exists.mp (Moment.ofLocalMicros?_isSome_iff.mpr hyears)
  have hlocal := (Moment.localMicros_ofLocalMicros? hm).2.2
  have hdigits : m.localMicros = s * second + 0 ∧ m.offset = some 0 := by
    rw [add_zero]
    exact hlocal
  cases h with
  | @seconds n hplain hdenotes =>
      have htext : normalText t n.toValue = toString s := by
        rw [normalText_plain hplain, normal, timestampThreshold, hdenotes.int_lt_iff,
          if_neg (by simpa using by omega), hdenotes.numberText (by omega) (by omega)]
      rw [htext]
      exact ⟨m, Coercion.date_of_seconds (by omega) hs' hm, hdigits⟩
  | @millis n hplain hdenotes =>
      obtain ⟨text, htext, hdate⟩ := date_of_instantText hdenotes (by omega) hs'
      have hnormal : normalText t n.toValue = text := by
        rw [normalText_plain hplain, normal, timestampThreshold, hdenotes.int_lt_iff,
          if_pos (by simpa using by omega), htext, Option.getD_some]
      rw [hnormal, add_zero]
      exact hdate
  | secondsText hlooked =>
      rw [normalText_text hlooked]
      exact ⟨m, Coercion.date_of_seconds (by omega) hs' hm, hdigits⟩
  | millisText hlooked =>
      rw [normalText_text hlooked]
      exact ⟨m, Coercion.date_of_millis (by omega) hs' hm, hdigits⟩
  | @time n hlooked htime hdenotes =>
      obtain ⟨text, htext, hdate⟩ := date_of_instantText hdenotes (by omega) hs'
      rw [normalText_time hlooked htime, normal, htext, Option.getD_some, add_zero]
      exact hdate
  | @dateText m text hlooked hshows hinstant =>
      rw [normalText_text hlooked]
      refine ⟨_, Coercion.date_of_shown hshows, ?_, rfl⟩
      rw [← hinstant, sub_add_cancel]
      rfl

end Cell

namespace Check

variable {c : Check} {r : Rule.Date} {x : Rule.Expiry} {m : Moment} {n t o : Int}

/-- A moment has expired if its instant, moved by the span, has passed; the clock that it is on
has to show the deadline. -/
theorem hasExpired_eq {now : Moment} {millis : Int} (hspan : isSpan millis = true)
    (hnow : now.instant? = some n) (hlocal : m.localMicros = t + o) (ho : m.offset = some o) :
    (InYears (t + o + millis * 1000) →
        hasExpired now millis m = .ok (decide (t + millis * 1000 < n))) ∧
      (¬ InYears (t + o + millis * 1000) → hasExpired now millis m = .error .outOfRange) := by
  have hyears : InYears (t + o + millis * 1000) ↔
      (Moment.ofLocalMicros? (t + o + millis * 1000) m.offset).isSome = true :=
    Moment.ofLocalMicros?_isSome_iff.symm
  have hlater : m.later? (millis * 1000) =
      Moment.ofLocalMicros? (t + o + millis * 1000) m.offset := by
    rw [Moment.later?, hlocal]
  rw [hasExpired, hspan, hyears, ← hlater]
  cases hl : m.later? (millis * 1000) with
  | none => simp
  | some deadline =>
      have hinstant := Moment.instant?_later hl ho
      rw [hlocal, add_sub_cancel_right] at hinstant
      simp [Moment.after?, hnow, hinstant]

/-- The outcome of a date rule with an expiry for a text that is read as a moment. -/
theorem run_of_moment {text : String} (hc : c.rule = .date r) (hx : r.expiry = some x)
    (hdate : Coercion.dateOfText r.convert text = .ok (.moment m)) :
    c.run (.text text) = match hasExpired c.now x.millis m with
      | .error f => .error f
      | .ok late =>
        if late then (c.report .expired (.int x.millis) (.text text)).map ([·]) else .ok [] := by
  have hb : ¬ Text.isBlankText text = true := by
    intro hb
    rw [Coercion.dateOfText_blank hb] at hdate
    cases hdate
  obtain ⟨-, hb', -⟩ | ⟨-, hrun⟩ := run_cases c text
  · exact absurd hb' hb
  · rw [hrun, runFull_of_coerce (v := .moment m) (by rw [hc]; exact hdate), hc, Rule.keywords, hx]
    have hkind : c.meets (.moment m) (.kind .date) = .ok true := rfl
    have hexpiry : c.meets (.moment m) (.expiry x.millis) =
        (hasExpired c.now x.millis m).map (!·) := rfl
    simp only [Rule.whenSome, problems, hkind, hexpiry]
    cases hasExpired c.now x.millis m with
    | error f => rfl
    | ok late =>
        cases late with
        | false => rfl
        | true =>
            change (do
              let e ← c.report .expired (.int x.millis) (.text text)
              .ok [e]) = (c.report .expired (.int x.millis) (.text text)).map ([·])
            cases c.report .expired (.int x.millis) (.text text) <;> rfl

end Check

namespace Cell

variable {s o n : Int} {t : ColumnType} {v : Value} {c : Check} {r : Rule.Date} {x : Rule.Expiry}

/-- **One instant, one verdict.** However a cell presents an instant, its normal text is read as
the instant, on the clock on which the cell presents it. If this clock can show the deadline, the
cell has expired exactly if the deadline has passed, whatever the presentation; otherwise there is
no verdict. The clock of universal time can show every deadline of the calendar. -/
theorem instant_has_one_verdict (hp : Presents s t v o) (hs : 1000000000 < s)
    (hs' : s < 100000000000) (hc : c.rule = .date r) (hr : r.convert = true)
    (hx : r.expiry = some x) (hd : InYears (s * second + x.millis * 1000))
    (hnow : c.now.instant? = some n) :
    (∃ m, c.rule.coerce (.text (normalText t v)) = .ok (.moment m) ∧ m.offset = some o ∧
        m.instant? = some (s * second)) ∧
      (InYears (s * second + o + x.millis * 1000) →
        c.run (.text (normalText t v)) =
          if s * second + x.millis * 1000 < n then
            (c.report .expired (.int x.millis) (.text (normalText t v))).map ([·])
          else .ok []) ∧
      (¬ InYears (s * second + o + x.millis * 1000) →
        c.run (.text (normalText t v)) = .error .outOfRange) := by
  obtain ⟨m, hdate, hlocal, ho⟩ := date_of_presents hp hs hs'
  have hread : Coercion.dateOfText r.convert (normalText t v) = .ok (.moment m) := by
    rw [hr]
    exact hdate
  have hspan : Check.isSpan x.millis = true := by
    simp only [InYears, second] at hd
    simp only [Check.isSpan, Bool.and_eq_true, decide_eq_true_eq]
    rw [Check.longestSpan]
    omega
  obtain ⟨hin, hout⟩ := Check.hasExpired_eq hspan hnow hlocal ho
  refine ⟨⟨m, ?_, ho, ?_⟩, fun h => ?_, fun h => ?_⟩
  · rw [hc]
    exact hread
  · rw [Moment.instant?, ho, Option.map_some, hlocal, add_sub_cancel_right]
  · rw [Check.run_of_moment hc hx hread, hin h]
    simp only [decide_eq_true_eq]
  · rw [Check.run_of_moment hc hx hread, hout h]

/-- A check of dates that expire after a number of milliseconds. -/
def expiryCheck (millis : Int) : Check :=
  ⟨.date ⟨⟨false, false, .null⟩, true, some ⟨toString millis, millis⟩⟩, "Due", [], [],
    .midnight ⟨2026, 1, 1⟩⟩

theorem presents_abroad :
    Presents 1700000000 .text (.text "2023-11-14T23:13:20+01:00") 3600000000 := by
  have hshows : Moment.Shows ⟨⟨2023, 11, 14⟩, 83600 * second + 0, some 3600000000⟩
      "2023-11-14T23:13:20+01:00" :=
    .mk ⟨by decide, by decide, by decide, by decide, by decide, by decide⟩ (by decide) .none
      (.offset 3600000000 (by decide) (by decide))
  exact .dateText rfl hshows (by decide)

/-- A deadline that a clock ahead of universal time cannot show leaves no verdict, though there is
one for the same instant in universal time. -/
theorem deadline_unshown :
    Presents 1700000000 .text (.text "2023-11-14T23:13:20+01:00") 3600000000 ∧
      InYears (1700000000 * second + 251702300799000 * 1000) ∧
      (expiryCheck 251702300799000).run
          (.text (normalText .text (.text "2023-11-14T23:13:20+01:00"))) = .error .outOfRange ∧
      (expiryCheck 251702300799000).run (.text (normalText .text (.int 1700000000))) = .ok [] := by
  have hnow : (expiryCheck 251702300799000).now.instant? = some (20454 * 86400000000) := by decide
  refine ⟨presents_abroad, by decide, ?_, ?_⟩
  · obtain ⟨m, hdate, hlocal, ho⟩ := date_of_presents presents_abroad (by decide) (by decide)
    rw [Check.run_of_moment (c := expiryCheck 251702300799000) rfl rfl hdate,
      (Check.hasExpired_eq (by decide) hnow hlocal ho).2 (by decide)]
  · have hpresents : Presents 1700000000 .text (.int 1700000000) 0 :=
      .seconds (n := .int 1700000000) ⟨rfl, rfl⟩ rfl
    obtain ⟨m, hdate, hlocal, ho⟩ := date_of_presents hpresents (by decide) (by decide)
    rw [Check.run_of_moment (c := expiryCheck 251702300799000) rfl rfl hdate,
      (Check.hasExpired_eq (by decide) hnow hlocal ho).1 (by decide)]
    exact if_neg (by decide)

/-- An expired date on a clock ahead of universal time. -/
theorem abroad_expired :
    (expiryCheck 86400000).run (.text (normalText .text (.text "2023-11-14T23:13:20+01:00"))) =
      ((expiryCheck 86400000).report .expired (.int 86400000)
        (.text (normalText .text (.text "2023-11-14T23:13:20+01:00")))).map ([·]) := by
  have hnow : (expiryCheck 86400000).now.instant? = some (20454 * 86400000000) := by decide
  obtain ⟨-, hverdict, -⟩ := instant_has_one_verdict presents_abroad (by decide) (by decide)
    (show (expiryCheck 86400000).rule = .date _ from rfl) rfl rfl (by decide) hnow
  rw [hverdict (by decide)]
  exact if_pos (by decide)

end Cell

end TableAudit
