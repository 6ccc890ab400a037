import TableAudit.Notice.Basic
import TableAudit.Proofs.Number.Digits

/-!
# What a key tells apart

The key of a notice is made of the columns' first characters, the row and a digest of the joined
texts. The marks between the parts of a key may occur inside the parts, so a key tells its subject
just as far as the joined text does: from where an underscore comes the text does not say.
-/

namespace TableAudit.Notice

/-! ### Cutting at a mark -/

section Cutting

variable {α : Type} [DecidableEq α] {mark : α} {front front' back back' : List α}

/-- Two texts with a mark in the middle are the same just if both sides are, provided that as many
marks stand on the left. -/
theorem cut_counted (h : front ++ mark :: back = front' ++ mark :: back')
    (hcount : front.count mark = front'.count mark) : front = front' ∧ back = back' := by
  -- otherwise one left side goes on with the mark behind the other
  have hnil {a b c d : List α} (hcut : mark :: c = b ++ mark :: d)
      (hab : a.count mark = (a ++ b).count mark) : b = [] := by
    cases b with
    | nil => rfl
    | cons x b =>
        obtain ⟨rfl, -⟩ := List.cons.inj hcut
        rw [List.count_append, List.count_cons_self] at hab
        omega
  obtain ⟨mid, rfl, hmid⟩ | ⟨mid, rfl, hmid⟩ := List.append_eq_append_iff.mp h
  · obtain rfl := hnil hmid hcount
    exact ⟨(List.append_nil front).symm, (List.cons.inj hmid).2⟩
  · obtain rfl := hnil hmid hcount.symm
    exact ⟨List.append_nil front', (List.cons.inj hmid).2.symm⟩

/-- A text is cut at its last mark in one way. -/
theorem cut_last (h : front ++ mark :: back = front' ++ mark :: back') (hb : mark ∉ back)
    (hb' : mark ∉ back') : front = front' ∧ back = back' := by
  have hcount := congrArg (List.count mark) h
  rw [List.count_append, List.count_append, List.count_cons_self, List.count_cons_self,
    List.count_eq_zero.mpr hb, List.count_eq_zero.mpr hb'] at hcount
  exact cut_counted h (Nat.add_right_cancel hcount)

end Cutting

/-! ### Digests -/

theorem length_littleEndian (count n : Nat) : (Md5.littleEndian count n).length = count := by
  rw [Md5.littleEndian, List.length_map, List.length_range]

theorem length_digest (bytes : List UInt8) : (Md5.digest bytes).length = 16 := by
  simp [Md5.digest, length_littleEndian]

theorem length_hex_byte (b : UInt8) : (Text.hex 2 b.toNat).length = 2 := by
  have hdigits : ∀ n < 256, (Nat.toDigits 16 n).length ≤ 2 := by decide +kernel
  have hle := hdigits b.toNat (UInt8.toNat_lt b)
  rw [Text.hex, List.length_append, List.length_replicate]
  omega

theorem length_firstChars (n : Nat) (s : String) :
    (firstChars n s).toList.length = min n s.toList.length := by
  rw [firstChars, String.toList_ofList, List.length_take]

/-- Digests are shortened to eight digits. -/
theorem length_shortDigest (s : String) : (shortDigest s).toList.length = 8 := by
  have hlength : ((Md5.digest s.toUTF8.toList).flatMap fun b => Text.hex 2 b.toNat).length = 32 := by
    rw [List.length_flatMap, List.map_congr_left fun b _ => length_hex_byte b, List.map_const',
      List.sum_replicate, length_digest]
    rfl
  rw [shortDigest, length_firstChars, String.toList_ofList, hlength]
  rfl

/-! ### Subjects and their keys -/

/-- What a notice is about: a row of a table with the columns that were checked, its record and the
time of its last change. -/
structure Subject where
  table : String
  columns : String
  record : String
  changed : Option Int
  row : Int
  numbered : 0 < row
deriving DecidableEq

namespace Subject

variable {s t : Subject}

/-- The time of the last change as a value. -/
def time (s : Subject) : Value :=
  .ofOption .int s.changed

/-- The key of a subject. -/
def key (s : Subject) : String :=
  Notice.key s.table s.columns s.record s.time (some s.row)

/-- The table, the columns and the record, joined. -/
def joined (s : Subject) : String :=
  s.table ++ "_" ++ s.columns ++ "_" ++ s.record

/-- The text of which the digest in the key is taken. -/
def hashed (s : Subject) : String :=
  keyText s.table s.columns s.record s.time

/-- The text of a time. -/
def timeText (s : Subject) : String :=
  (s.changed.map toString).getD ""

/-- Texts with a mark in the middle, as characters. -/
theorem marked_cut {mark : Char} {m a a' b b' : String} (hm : m.toList = [mark])
    (h : a ++ m ++ b = a' ++ m ++ b') :
    a.toList ++ mark :: b.toList = a'.toList ++ mark :: b'.toList := by
  have hcut := congrArg String.toList h
  simpa only [String.toList_append, hm, List.append_assoc, List.singleton_append] using hcut

/-- Texts that end in parts of one length are cut there. -/
theorem append_cut {a a' b b' : String} (hlength : b.toList.length = b'.toList.length)
    (h : a ++ b = a' ++ b') : a = a' ∧ b = b' := by
  have hcut := congrArg String.toList h
  simp only [String.toList_append] at hcut
  obtain ⟨ha, hb⟩ := List.append_inj' hcut hlength
  exact ⟨String.toList_inj.mp ha, String.toList_inj.mp hb⟩

theorem underscore : "_".toList = ['_'] := rfl

theorem point : ".".toList = ['.'] := rfl

theorem hashed_eq (s : Subject) : s.hashed = s.joined ++ "_" ++ s.timeText := by
  rw [hashed, joined, timeText, time]
  cases s.changed <;> rfl

theorem key_eq (s : Subject) : s.key =
    firstChars 8 s.columns ++ "." ++ toString s.row ++ "." ++ shortDigest s.hashed := by
  have hrow : s.row ≠ 0 := ne_of_gt s.numbered
  simp only [key, Notice.key, if_neg hrow, hashed]

theorem timeText_inj (h : s.timeText = t.timeText) : s.changed = t.changed := by
  have hne (n : Int) : toString n ≠ "" := by
    intro h
    have hnil := congrArg String.toList h
    rw [Number.toString_toList] at hnil
    exact Nat.toDigits_ne_nil (List.append_eq_nil_iff.mp hnil).2
  rw [timeText, timeText] at h
  cases hs : s.changed with
  | none =>
      cases ht : t.changed with
      | none => rfl
      | some m =>
          rw [hs, ht] at h
          exact absurd h.symm (hne m)
  | some n =>
      cases ht : t.changed with
      | none =>
          rw [hs, ht] at h
          exact absurd h (hne n)
      | some m =>
          rw [hs, ht] at h
          exact congrArg some (Number.toString_injective h)

theorem notMem_toString {c : Char} (hminus : c ≠ '-') (hdigit : c.isDigit = false) (n : Int) :
    c ∉ (toString n).toList := by
  intro h
  obtain h | h := Number.mem_toString h
  · exact hminus h
  · rw [hdigit] at h
    cases h

theorem underscore_notMem_timeText (s : Subject) : '_' ∉ s.timeText.toList := by
  rw [timeText]
  cases s.changed with
  | none => exact List.not_mem_nil
  | some n => exact notMem_toString (by decide) (by decide) n

/-- The hashed text tells the joined text and the time. -/
theorem hashed_inj : s.hashed = t.hashed ↔ s.joined = t.joined ∧ s.changed = t.changed := by
  constructor
  · intro h
    rw [hashed_eq, hashed_eq] at h
    obtain ⟨hjoined, htime⟩ :=
      cut_last (marked_cut underscore h) s.underscore_notMem_timeText t.underscore_notMem_timeText
    exact ⟨String.toList_inj.mp hjoined, timeText_inj (String.toList_inj.mp htime)⟩
  · rintro ⟨hjoined, hchanged⟩
    rw [hashed_eq, hashed_eq, timeText, timeText, hjoined, hchanged]

/-- The joined text tells its parts, if underscores stand in the same of them. -/
theorem joined_inj (htable : s.table.toList.count '_' = t.table.toList.count '_')
    (hcolumns : s.columns.toList.count '_' = t.columns.toList.count '_')
    (h : s.joined = t.joined) : s.table = t.table ∧ s.columns = t.columns ∧ s.record = t.record := by
  have hfronts : (s.table ++ "_" ++ s.columns).toList.count '_' =
      (t.table ++ "_" ++ t.columns).toList.count '_' := by
    simp only [String.toList_append, List.count_append, htable, hcolumns]
  obtain ⟨hfront, hrecord⟩ := cut_counted (marked_cut underscore h) hfronts
  obtain ⟨ht, hc⟩ := cut_counted (marked_cut underscore (String.toList_inj.mp hfront)) htable
  exact ⟨String.toList_inj.mp ht, String.toList_inj.mp hc, String.toList_inj.mp hrecord⟩

/-- Keys are the same just if their parts are. -/
theorem key_parts : s.key = t.key ↔ firstChars 8 s.columns = firstChars 8 t.columns ∧
    s.row = t.row ∧ shortDigest s.hashed = shortDigest t.hashed := by
  constructor
  · intro h
    rw [key_eq, key_eq] at h
    have hlength := (length_shortDigest s.hashed).trans (length_shortDigest t.hashed).symm
    obtain ⟨hfront, hdigest⟩ := append_cut hlength h
    obtain ⟨hfront, -⟩ := append_cut rfl hfront
    obtain ⟨hcolumns, hrow⟩ := cut_last (marked_cut point hfront)
      (notMem_toString (by decide) (by decide) s.row)
      (notMem_toString (by decide) (by decide) t.row)
    exact ⟨String.toList_inj.mp hcolumns,
      Number.toString_injective (String.toList_inj.mp hrow), hdigest⟩
  · rintro ⟨hcolumns, hrow, hdigest⟩
    rw [key_eq, key_eq, hcolumns, hrow, hdigest]

/-- As far as the digest tells the hashed texts apart, two subjects have the same key just if they are
in the same row, were changed at the same time, and agree in the first characters of the columns and
in the joined text. They are then the same just if the table and the columns of one hold as many
underscores as those of the other. -/
theorem same_key_iff (s t : Subject)
    (hdigest : shortDigest s.hashed = shortDigest t.hashed → s.hashed = t.hashed) :
    (s.key = t.key ↔ s.row = t.row ∧ s.changed = t.changed ∧
      firstChars 8 s.columns = firstChars 8 t.columns ∧ s.joined = t.joined) ∧
    (s.key = t.key → (s = t ↔ s.table.toList.count '_' = t.table.toList.count '_' ∧
      s.columns.toList.count '_' = t.columns.toList.count '_')) := by
  have hkey : s.key = t.key ↔ s.row = t.row ∧ s.changed = t.changed ∧
      firstChars 8 s.columns = firstChars 8 t.columns ∧ s.joined = t.joined := by
    rw [key_parts]
    constructor
    · rintro ⟨hcolumns, hrow, hd⟩
      obtain ⟨hjoined, hchanged⟩ := hashed_inj.mp (hdigest hd)
      exact ⟨hrow, hchanged, hcolumns, hjoined⟩
    · rintro ⟨hrow, hchanged, hcolumns, hjoined⟩
      exact ⟨hcolumns, hrow, congrArg shortDigest (hashed_inj.mpr ⟨hjoined, hchanged⟩)⟩
  refine ⟨hkey, fun h => ?_⟩
  obtain ⟨hrow, hchanged, -, hjoined⟩ := hkey.mp h
  constructor
  · rintro rfl
    exact ⟨rfl, rfl⟩
  · rintro ⟨htable, hcolumns⟩
    obtain ⟨ht, hc, hr⟩ := joined_inj htable hcolumns hjoined
    obtain ⟨table, columns, record, changed, row, numbered⟩ := s
    obtain rfl : table = t.table := ht
    obtain rfl : columns = t.columns := hc
    obtain rfl : record = t.record := hr
    obtain rfl : changed = t.changed := hchanged
    obtain rfl : row = t.row := hrow
    rfl

/-- The first row of a table. -/
def first (table columns record : String) : Subject :=
  ⟨table, columns, record, some 1700000000000, 1, by decide⟩

/-- Records of one table are told apart. -/
theorem first_told_apart : (first "tbl" "cols" "recA").key ≠ (first "tbl" "cols" "recB").key := by
  have hdigest : shortDigest (first "tbl" "cols" "recA").hashed ≠
      shortDigest (first "tbl" "cols" "recB").hashed := by decide +kernel
  intro h
  have hjoined := ((same_key_iff _ _ fun heq => absurd heq hdigest).1.mp h).2.2.2
  exact absurd hjoined (by decide)

/-- Underscores in the names of a table, its columns or its records mix them up. -/
theorem first_mixed_up :
    (first "tbl" "c" "c_r").hashed = (first "tbl_c" "c" "r").hashed ∧
      (first "tbl" "c" "c_r").key = (first "tbl_c" "c" "r").key ∧
      first "tbl" "c" "c_r" ≠ first "tbl_c" "c" "r" := by
  have hhashed : (first "tbl" "c" "c_r").hashed = (first "tbl_c" "c" "r").hashed := by decide
  refine ⟨hhashed, ?_, by decide⟩
  rw [key_eq, key_eq, hhashed]
  rfl

end Subject

end TableAudit.Notice
