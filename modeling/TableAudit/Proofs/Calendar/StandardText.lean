import TableAudit.Calendar.Iso
import TableAudit.Proofs.Calendar.Days
import TableAudit.Proofs.Number.Digits

/-!
# Standard texts of moments

Numbers in date texts have a fixed width, so they are read back as they were written. A moment is
read back from its standard text: the date, the time of day to the microsecond, and the offset, if
it has one. A `Z` stands for the offset of universal time, and a text cut to milliseconds gives the
moment without what was cut.
-/

namespace TableAudit.Calendar

variable {width n k : Nat} {rest : List Char}

/-! ### Numbers of a fixed width -/

theorem padded_length (hw : 0 < width) (h : n < 10 ^ width) : (padded width n).length = width := by
  have hle := (Nat.length_toDigits_le_iff (by decide) hw).mpr h
  rw [padded, List.length_append, List.length_replicate, Nat.sub_add_cancel hle]

theorem isDigit_of_mem_padded {c : Char} (h : c ∈ padded width n) : c.isDigit = true := by
  rw [padded, List.mem_append, List.mem_replicate] at h
  obtain ⟨-, rfl⟩ | h := h
  · decide
  · exact Nat.isDigit_of_mem_toDigits (by decide) (by decide) h

theorem padded_eq_cons (hw : 0 < width) (h : n < 10 ^ width) :
    ∃ c more, padded width n = c :: more ∧ c.isDigit = true := by
  obtain ⟨c, more, hc⟩ := List.exists_cons_of_ne_nil
    (List.ne_nil_of_length_pos ((padded_length hw h).symm ▸ hw))
  exact ⟨c, more, hc, isDigit_of_mem_padded (hc ▸ List.mem_cons_self)⟩

theorem ofDigitChars_padded (width n : Nat) : Nat.ofDigitChars 10 (padded width n) 0 = n := by
  have hzeros (k : Nat) (ds : List Char) :
      Nat.ofDigitChars 10 (List.replicate k '0' ++ ds) 0 = Nat.ofDigitChars 10 ds 0 := by
    induction k with
    | zero => rfl
    | succ k ih => exact ih
  rw [padded, hzeros, Nat.ofDigitChars_toDigits (by decide) (by decide)]

namespace Iso

/-- A number of a fixed width is read back. -/
theorem digits?_padded (hw : 0 < width) (h : n < 10 ^ width) :
    digits? width (padded width n ++ rest) = some (n, rest) := by
  have hlength := padded_length hw h
  have htake : (padded width n ++ rest).take width = padded width n := by
    rw [List.take_append_of_le_length hlength.ge, List.take_of_length_le hlength.le]
  have hdrop : (padded width n ++ rest).drop width = rest := by
    rw [List.drop_append_of_le_length hlength.ge, List.drop_of_length_le hlength.le,
      List.nil_append]
  have hall : (padded width n).all (·.isDigit) = true :=
    List.all_eq_true.mpr fun c hc => isDigit_of_mem_padded hc
  rw [digits?, htake, hdrop, if_pos ⟨hlength, hall⟩]
  exact congrArg (fun v => some (v, rest)) (ofDigitChars_padded width n)

/-- A number of a fixed width fills its text. -/
theorem digits?_padded_end (hw : 0 < width) (h : n < 10 ^ width) :
    digits? width (padded width n) = some (n, []) := by
  have hread := @digits?_padded width n [] hw h
  rwa [List.append_nil] at hread

/-- Decimals of a second and the microseconds that they stand for. -/
inductive Decimals : List Char → Nat → Prop
  | none : Decimals [] 0
  | some (k v : Nat) (pos : 0 < k) (le : k ≤ 6) (lt : v < 10 ^ k) :
      Decimals ('.' :: padded k v) (v * 10 ^ (6 - k))

theorem fraction?_padded {v : Nat} (hk : 0 < k) (hle : k ≤ 6) (hv : v < 10 ^ k)
    (followed : Bool) : fraction? (padded k v) followed = some (v * 10 ^ (6 - k), followed) := by
  rw [fraction?, padded_length hk hv, min_eq_right hle, digits?_padded_end hk hv]
  simp

variable {h m s f : Nat} {fr : List Char} {followed colons : Bool} {got : List Nat}

theorem clock?_colon (hn : n < 100) (hr : rest ≠ []) (hg : colons = true ∨ got = []) :
    clock? followed (k + 1) colons got (padded 2 n ++ ':' :: rest) =
      clock? followed k true (got ++ [n]) rest := by
  obtain ⟨c, more, rfl⟩ := List.exists_cons_of_ne_nil hr
  rw [clock?, digits?_padded (by decide) hn]
  obtain rfl | rfl := hg <;> simp

theorem clock?_end (hn : n < 100) :
    clock? followed (k + 1) colons got (padded 2 n) = some (got ++ [n], 0, followed) := by
  rw [clock?, digits?_padded_end (by decide) hn]
  rfl

theorem clock?_decimals (hn : n < 100) (hf : Decimals fr f) :
    clock? followed (k + 1) colons got (padded 2 n ++ fr) = some (got ++ [n], f, followed) := by
  cases hf with
  | none =>
      rw [List.append_nil]
      exact clock?_end hn
  | some j v pos le lt =>
      have hread := fraction?_padded pos le lt followed
      obtain ⟨c, more, hpadded, -⟩ := padded_eq_cons pos lt
      rw [hpadded] at hread
      rw [clock?, digits?_padded (by decide) hn, hpadded]
      simp [hread]

/-- Hours, minutes and seconds with decimals. -/
def clockText (h m s : Nat) (fr : List Char) : List Char :=
  padded 2 h ++ ':' :: (padded 2 m ++ ':' :: (padded 2 s ++ fr))

theorem reading?_clockText (hh : h < 100) (hm : m < 100) (hs : s < 100) (hf : Decimals fr f) :
    reading? followed (clockText h m s fr) = some ⟨h, m, s, f, followed⟩ := by
  have hne {n : Nat} {rest : List Char} (hn : n < 100) : padded 2 n ++ rest ≠ [] := by
    obtain ⟨c, more, hc, -⟩ := padded_eq_cons (show 0 < 2 by decide) hn
    simp [hc]
  rw [reading?, clockText, clock?_colon hh (hne hm) (Or.inr rfl),
    clock?_colon hm (hne hs) (Or.inl rfl), clock?_decimals hs hf]
  rfl

theorem reading?_hourMinute (hh : h < 100) (hm : m < 100) :
    reading? followed (padded 2 h ++ ':' :: padded 2 m) = some ⟨h, m, 0, 0, followed⟩ := by
  obtain ⟨c, more, hc, -⟩ := padded_eq_cons (show 0 < 2 by decide) hm
  rw [reading?, clock?_colon hh (by simp [hc]) (Or.inr rfl), clock?_end hm]
  rfl

/-! ### Offsets -/

/-- A character with which an offset begins. -/
def isMark (c : Char) : Bool :=
  c == '+' || c == '-' || c == 'Z'

theorem not_isMark_of_isDigit {c : Char} (h : c.isDigit = true) : isMark c = false := by
  rw [Bool.eq_false_iff]
  intro hmark
  simp only [isMark, Bool.or_eq_true, beq_iff_eq] at hmark
  obtain (rfl | rfl) | rfl := hmark <;> exact absurd h (by decide)

theorem not_isMark_of_mem_decimals (hf : Decimals fr f) : ∀ c ∈ fr, isMark c = false := by
  cases hf with
  | none => simp
  | some j v =>
      intro c hc
      obtain rfl | hc := List.mem_cons.mp hc
      · decide
      · exact not_isMark_of_isDigit (isDigit_of_mem_padded hc)

theorem not_isMark_of_mem_clockText (hf : Decimals fr f) :
    ∀ c ∈ clockText h m s fr, isMark c = false := by
  intro c hc
  simp only [clockText, List.mem_append, List.mem_cons] at hc
  obtain hc | rfl | hc | rfl | hc | hc := hc
  · exact not_isMark_of_isDigit (isDigit_of_mem_padded hc)
  · decide
  · exact not_isMark_of_isDigit (isDigit_of_mem_padded hc)
  · decide
  · exact not_isMark_of_isDigit (isDigit_of_mem_padded hc)
  · exact not_isMark_of_mem_decimals hf c hc

/-- The time of day ends where an offset begins. -/
theorem span_clockText {zone : List Char} (hf : Decimals fr f)
    (hmark : ∀ c ∈ zone.head?, isMark c = true) :
    (clockText h m s fr ++ zone).takeWhile (fun c => !(c == '+' || c == '-' || c == 'Z')) =
        clockText h m s fr ∧
      (clockText h m s fr ++ zone).dropWhile (fun c => !(c == '+' || c == '-' || c == 'Z')) =
        zone := by
  have hbody : ∀ c ∈ clockText h m s fr, (!isMark c) = true := by
    simpa using not_isMark_of_mem_clockText hf
  have hzone : zone.takeWhile (!isMark ·) = [] ∧ zone.dropWhile (!isMark ·) = zone := by
    cases zone with
    | nil => simp
    | cons c zone => simp [hmark c (by simp)]
  change (clockText h m s fr ++ zone).takeWhile (!isMark ·) = _ ∧
    (clockText h m s fr ++ zone).dropWhile (!isMark ·) = _
  rw [List.takeWhile_append_of_pos hbody, List.dropWhile_append_of_pos hbody, hzone.1, hzone.2,
    List.append_nil]
  exact ⟨rfl, rfl⟩

/-- The microseconds of a time of day. -/
def clockMicros (h m s f : Nat) : Nat :=
  (h * 3600 + m * 60 + s) * second + f

/-- An offset is written as a sign with its parts, which are read back. -/
theorem offsetChars_eq {o : Int} (ho : o.natAbs < day) : ∃ tail r,
    Moment.offsetChars o = (if o < 0 then '-' else '+') :: tail ∧
      reading? false tail = some r ∧ r.leftOver = false ∧
      r.hour * 3600 + r.minute * 60 + r.second = o.natAbs / second ∧
      r.micros = o.natAbs % second := by
  obtain ⟨t, ht⟩ : ∃ t, t = o.natAbs := ⟨_, rfl⟩
  have hlt : t < day := by omega
  simp only [day, second] at hlt
  have hhour : t / second / 3600 < 100 := by
    simp only [second]
    omega
  have hminute : t / second / 60 % 60 < 100 := by omega
  have hsecond : t / second % 60 < 100 := by omega
  rw [← ht]
  by_cases hwhole : t % (60 * second) = 0
  · have hmicros : t % second = 0 := Nat.mod_mul_left_mod t 60 second ▸ by rw [hwhole]; rfl
    refine ⟨padded 2 (t / second / 3600) ++ ':' :: padded 2 (t / second / 60 % 60), _, ?_,
      reading?_hourMinute hhour hminute, rfl, ?_, hmicros.symm⟩
    · simp [Moment.offsetChars, ← ht, hwhole, hmicros]
    · simp only [second] at hwhole ⊢
      omega
  · obtain ⟨fr, hfr, hdecimals⟩ : ∃ fr, fr = (if t % second = 0 then [] else
        '.' :: padded 6 (t % second)) ∧ Decimals fr (t % second) := by
      refine ⟨_, rfl, ?_⟩
      split
      next h =>
        rw [h]
        exact .none
      next h =>
        have hsix := Decimals.some 6 (t % second) (by decide) le_rfl (Nat.mod_lt _ (by decide))
        simpa using hsix
    refine ⟨clockText (t / second / 3600) (t / second / 60 % 60) (t / second % 60) fr, _, ?_,
      reading?_clockText hhour hminute hsecond hdecimals, rfl, ?_, rfl⟩
    · simp only [Moment.offsetChars, ← ht, if_neg hwhole, ← hfr, clockText]
      simp
    · simp only [second]
      omega

variable (hh : h < 24) (hm : m < 60) (hs : s < 60) (hf : Decimals fr f)
include hh hm hs hf

theorem time?_naive : time? (clockText h m s fr) = some (clockMicros h m s f, none) := by
  obtain ⟨htake, hdrop⟩ := span_clockText (h := h) (m := m) (s := s) hf
    (by simp : ∀ c ∈ ([] : List Char).head?, isMark c = true)
  rw [List.append_nil] at htake hdrop
  have hread : reading? false (clockText h m s fr) = _ :=
    reading?_clockText (by omega) (by omega) (by omega) hf
  simp only [time?, htake, hdrop]
  simp [hread, hh, hm, hs, clockMicros]

theorem time?_zulu : time? (clockText h m s fr ++ ['Z']) = some (clockMicros h m s f, some 0) := by
  obtain ⟨htake, hdrop⟩ := span_clockText (h := h) (m := m) (s := s) hf
    (by simp [isMark] : ∀ c ∈ ['Z'].head?, isMark c = true)
  have hread : reading? true (clockText h m s fr) = _ :=
    reading?_clockText (by omega) (by omega) (by omega) hf
  simp only [time?, htake, hdrop]
  simp [hread, hh, hm, hs, clockMicros]

/-- An offset is read back, unless it is a part of a second. -/
theorem time?_offset {o : Int} (ho : o.natAbs < day) (hpart : o = 0 ∨ second ≤ o.natAbs) :
    time? (clockText h m s fr ++ Moment.offsetChars o) = some (clockMicros h m s f, some o) := by
  obtain ⟨tail, r, htext, hr, hleft, hseconds, hmicros⟩ := offsetChars_eq ho
  obtain ⟨sign, hsign⟩ : ∃ sign, sign = if o < 0 then '-' else '+' := ⟨_, rfl⟩
  rw [htext, ← hsign]
  have hmark : ∀ c ∈ (sign :: tail).head?, isMark c = true := by
    rw [hsign]
    split <;> simp [isMark]
  obtain ⟨htake, hdrop⟩ := span_clockText (h := h) (m := m) (s := s) hf hmark
  have hread : reading? true (clockText h m s fr) = _ :=
    reading?_clockText (by omega) (by omega) (by omega) hf
  have hsize : (if r.hour * 3600 + r.minute * 60 + r.second = 0 then 0 else
      ((r.hour * 3600 + r.minute * 60 + r.second : Nat) : Int) * second + r.micros) =
        o.natAbs := by
    rw [hseconds, hmicros]
    have hsplit := Nat.div_add_mod o.natAbs second
    split
    next h0 =>
      have hlt := Nat.lt_of_div_eq_zero (by decide) h0
      omega
    next =>
      rw [mul_comm]
      exact_mod_cast hsplit
  have hletter : sign ≠ 'Z' := by
    rw [hsign]
    split <;> decide
  have hvalue : (if (sign == '-') = true then -(o.natAbs : Int) else o.natAbs) = o := by
    by_cases hneg : o < 0
    · rw [hsign, if_pos hneg, if_pos (by decide)]
      omega
    · rw [hsign, if_neg hneg, if_neg (by decide)]
      omega
  have hshort : ¬ (day : Int) ≤ o.natAbs := by omega
  simp only [time?, htake, hdrop]
  rw [show (!(sign :: tail).isEmpty) = true from rfl, hread, hr]
  simp only [Option.bind_eq_bind, Option.bind_some, hleft, Bool.false_or, hsize, hshort,
    decide_false, hvalue]
  simp [hh, hm, hs, clockMicros]

omit hh hm hs hf

/-- Texts of an offset and the offset that they stand for. -/
inductive Zone : List Char → Option Int → Prop
  | naive : Zone [] none
  | zulu : Zone ['Z'] (some 0)
  | offset (o : Int) (lt : o.natAbs < day) (whole : o = 0 ∨ second ≤ o.natAbs) :
      Zone (Moment.offsetChars o) (some o)

theorem time?_clockText {zone : List Char} {o : Option Int} (hh : h < 24) (hm : m < 60)
    (hs : s < 60) (hf : Decimals fr f) (hz : Zone zone o) :
    time? (clockText h m s fr ++ zone) = some (clockMicros h m s f, o) := by
  cases hz with
  | naive =>
      rw [List.append_nil]
      exact time?_naive hh hm hs hf
  | zulu => exact time?_zulu hh hm hs hf
  | offset o lt whole => exact time?_offset hh hm hs hf lt whole

/-! ### Dates and moments -/

variable {d : Date} {moment : Moment}

theorem date?_chars (hd : d.InCalendar) : date? d.chars = some d := by
  have hmonth : d.month < 10 ^ 2 := lt_of_le_of_lt hd.month_le (by decide)
  have hday : d.day < 10 ^ 2 := by
    have := hd.day_le
    simp only [daysInMonth] at this
    split_ifs at this <;> omega
  have hyear : d.year < 10 ^ 4 := lt_of_le_of_lt hd.year_le (by decide)
  obtain ⟨c, more, hc, hdigit⟩ := padded_eq_cons (show 0 < 2 by decide) hmonth
  have hletter : c ≠ 'W' := by
    rintro rfl
    exact absurd hdigit (by decide)
  have hread : digits? 2 (c :: (more ++ '-' :: padded 2 d.day)) =
      some (d.month, '-' :: padded 2 d.day) := by
    rw [← List.cons_append, ← hc]
    exact digits?_padded (by decide) hmonth
  have hlast := digits?_padded_end (show 0 < 2 by decide) hday
  rw [date?, Date.chars, List.append_assoc, digits?_padded (by decide) hyear]
  simp [hc, hletter, hread, hlast, Date.mk?_eq hd]

theorem length_chars (hd : d.InCalendar) : d.chars.length = 10 := by
  have hday := hd.day_le
  simp only [daysInMonth] at hday
  simp only [Date.chars, List.length_append, List.length_cons]
  rw [padded_length (by decide) (lt_of_le_of_lt hd.year_le (by decide)),
    padded_length (by decide) (lt_of_le_of_lt hd.month_le (by decide)),
    padded_length (by decide) (by split_ifs at hday <;> omega)]

/-- A date with hyphens takes ten characters. -/
theorem dateLength_chars (hd : d.InCalendar) (sep : Char) (rest : List Char) :
    dateLength (d.chars ++ sep :: rest) = 10 := by
  have hyear : (padded 4 d.year).length = 4 :=
    padded_length (by decide) (lt_of_le_of_lt hd.year_le (by decide))
  have hmonth : d.month < 10 ^ 2 := lt_of_le_of_lt hd.month_le (by decide)
  obtain ⟨c, more, hc, hdigit⟩ := padded_eq_cons (show 0 < 2 by decide) hmonth
  have hletter : c ≠ 'W' := by
    rintro rfl
    exact absurd hdigit (by decide)
  have hlong : (d.chars ++ sep :: rest).length ≠ 7 := by
    rw [List.length_append, length_chars hd, List.length_cons]
    omega
  rw [dateLength, if_neg hlong]
  simp [Date.chars, hc, hletter, List.getElem?_append_right, hyear]

/-- A moment is read as its date, its time of day and its offset are, whatever stands between date
and time. -/
theorem moment?_chars {zone : Option Int} {micros : Nat} (hd : d.InCalendar) (sep : Char)
    (ht : time? rest = some (micros, zone)) :
    moment? (String.ofList (d.chars ++ sep :: rest)) = some ⟨d, micros, zone⟩ := by
  have hlength := length_chars hd
  have hlong : 7 ≤ d.chars.length + (rest.length + 1) := by omega
  have htake : (d.chars ++ sep :: rest).take 10 = d.chars := by
    rw [← hlength, List.take_left]
  have hdrop : (d.chars ++ sep :: rest).drop 10 = sep :: rest := by
    rw [← hlength, List.drop_left]
  simp [moment?, hlong, dateLength_chars hd, htake, hdrop, date?_chars hd, ht]

end Iso

namespace Moment

variable {m : Moment}

theorem InCalendar.seconds_lt (hm : m.InCalendar) : m.micros / second < 86400 :=
  Nat.div_lt_of_lt_mul (by have := hm.micros_lt; simpa only [day, mul_comm] using this)

/-- The decimals that a standard text shows. -/
def decimals (micros : Nat) : List Char :=
  if micros % second = 0 then [] else '.' :: padded 6 (micros % second)

theorem decimals_spec (micros : Nat) : Iso.Decimals (decimals micros) (micros % second) := by
  rw [decimals]
  split
  next h =>
    rw [h]
    exact .none
  next h =>
    simpa using Iso.Decimals.some 6 (micros % second) (by decide) le_rfl
      (Nat.mod_lt _ (by decide))

/-- A text shows a moment by its date, its time of day with some decimals, and its offset. -/
inductive Shows : Moment → String → Prop
  | mk {d : Date} {seconds f : Nat} {fr zone : List Char} {o : Option Int} (date : d.InCalendar)
      (time : seconds < 86400) (decimals : Iso.Decimals fr f) (offset : Iso.Zone zone o) :
      Shows ⟨d, seconds * second + f, o⟩
        (String.ofList (d.chars ++ 'T' :: (clockChars seconds ++ fr ++ zone)))

variable {text : String}

/-- A text is read as the moment that it shows. -/
theorem Shows.read (h : Shows m text) : Iso.moment? text = some m := by
  cases h with
  | @mk d seconds f fr zone o hd htime hf hz =>
      have hclock := Iso.time?_clockText (show seconds / 3600 < 24 by omega)
        (Nat.mod_lt (seconds / 60) (by decide)) (Nat.mod_lt seconds (by decide)) hf hz
      have htext : clockChars seconds ++ fr =
          Iso.clockText (seconds / 3600) (seconds / 60 % 60) (seconds % 60) fr := by
        simp [clockChars, Iso.clockText]
      have hmicros : Iso.clockMicros (seconds / 3600) (seconds / 60 % 60) (seconds % 60) f =
          seconds * second + f := by
        rw [Iso.clockMicros]
        congr 2
        omega
      rw [htext, Iso.moment?_chars hd 'T' hclock, hmicros]

theorem Shows.mem_letter (h : Shows m text) : 'T' ∈ text.toList := by
  cases h
  simp

/-- A character of a text that shows a moment. -/
def isStampChar (c : Char) : Bool :=
  c.isDigit || c == '-' || c == '+' || c == 'T' || c == ':' || c == '.' || c == 'Z'

theorem Shows.chars (h : Shows m text) : text.toList.all isStampChar = true := by
  have hpadded (width n : Nat) : (padded width n).all isStampChar = true :=
    List.all_eq_true.mpr fun c hc => by simp [isStampChar, isDigit_of_mem_padded hc]
  have hmarks : ['-', '+', 'T', ':', '.', 'Z'].all isStampChar = true := by decide
  simp only [List.all_cons, Bool.and_eq_true] at hmarks
  cases h with
  | @mk d seconds f fr zone o hd htime hf hz =>
      have hdecimals : fr.all isStampChar = true := by
        cases hf with
        | none => rfl
        | some k v => simp [hmarks, hpadded]
      have hzone : zone.all isStampChar = true := by
        cases hz with
        | naive => rfl
        | zulu => decide
        | offset o =>
            simp only [offsetChars]
            split_ifs <;> simp only [List.all_cons, List.all_append, hmarks, hpadded] <;> rfl
      simp only [String.toList_ofList, Date.chars, clockChars, List.all_append, List.all_cons,
        hpadded, hmarks, hdecimals, hzone]
      rfl

theorem Shows.not_blank (h : Shows m text) : ∀ c ∈ text.toList, Text.isBlank c = false := by
  intro c hc
  have hchar := List.all_eq_true.mp h.chars c hc
  simp only [isStampChar, Bool.or_eq_true, beq_iff_eq] at hchar
  obtain (((((hdigit | rfl) | rfl) | rfl) | rfl) | rfl) | rfl := hchar
  · exact Number.isDecimalDigit_not_blank (Number.isDecimalDigit_of_isDigit hdigit)
  all_goals decide

/-- The letter before the time of day keeps the text from being a number's. -/
theorem Shows.not_number (h : Shows m text) : Number.form? text.toList = none := by
  rw [Option.eq_none_iff_forall_ne_some]
  intro f hf
  exact absurd (Number.form_chars hf 'T' h.mem_letter) (by decide)

/-- A moment is shown by its standard text, unless its offset is a part of a second. -/
theorem shows_isoText (hm : m.InCalendar) (ho : ∀ o ∈ m.offset, o = 0 ∨ second ≤ o.natAbs) :
    Shows m m.isoText := by
  have hzone : Iso.Zone ((m.offset.map offsetChars).getD []) m.offset := by
    obtain ⟨date, micros, _ | o⟩ := m
    · exact .naive
    · exact .offset o (hm.offset_lt o rfl) (ho o rfl)
  have hshows := Shows.mk hm.date hm.seconds_lt (decimals_spec m.micros) hzone
  rw [Nat.div_add_mod'] at hshows
  simpa [isoText, chars, decimals] using hshows

/-- With a `Z` after it, the standard text of a moment without its offset shows one in universal
time. -/
theorem shows_zuluText (hm : m.InCalendar) : Shows { m with offset := some 0 } m.zuluText := by
  have hshows := Shows.mk hm.date hm.seconds_lt (decimals_spec m.micros) .zulu
  rw [Nat.div_add_mod'] at hshows
  have htext : m.zuluText = String.ofList (m.date.chars ++ 'T' ::
      (clockChars (m.micros / second) ++ decimals m.micros ++ ['Z'])) := by
    rw [← String.toList_inj]
    simp [zuluText, isoText, chars, decimals]
  rwa [htext]

/-- The text of a moment with milliseconds shows the moment cut to them. -/
theorem shows_millisText (hm : m.InCalendar) :
    Shows ⟨m.date, m.micros / 1000 * 1000, some 0⟩ m.millisText := by
  have hlt : m.micros % second < second := Nat.mod_lt _ (by decide)
  have hdecimals := Iso.Decimals.some 3 (m.micros % second / 1000) (by decide) (by decide)
    (by simp only [second] at hlt ⊢; omega)
  have hcut : m.micros / second * second + m.micros % second / 1000 * 10 ^ (6 - 3) =
      m.micros / 1000 * 1000 := by
    simp only [second]
    omega
  have hshows := Shows.mk hm.date hm.seconds_lt hdecimals .zulu
  rw [hcut] at hshows
  simpa [millisText] using hshows

end Moment

end TableAudit.Calendar
