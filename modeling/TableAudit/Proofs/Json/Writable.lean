import Mathlib.Data.List.Basic
import TableAudit.Json.Bytes
import TableAudit.Proofs.Fault
import TableAudit.Proofs.Cell.Writable

/-!
# Values that were read can be written

The reader of JSON refuses integers with too many digits, so every value it gives can be written.
-/

namespace TableAudit

namespace Text

theorem digitValue?_le (c : Char) : (digitValue? c).getD 0 ≤ 9 := by
  rw [digitValue?]
  split
  · split
    · rename_i hdigit
      simp only [Char.isDigit, Bool.and_eq_true, decide_eq_true_eq] at hdigit
      have hhigh : c.toNat ≤ 57 := hdigit.2
      rw [Option.getD_some]
      omega
    · exact Nat.zero_le 9
  · cases hz : digitZeros.find? fun z => z ≤ c.toNat && c.toNat < z + 10 with
    | none => exact Nat.zero_le 9
    | some z =>
        have hrun := List.find?_some hz
        simp only [Bool.and_eq_true, decide_eq_true_eq] at hrun
        rw [Option.map_some, Option.getD_some]
        omega

/-- A run of digits spells a number with at most as many digits. -/
theorem digitsValue_lt (ds : List Char) : digitsValue ds < 10 ^ ds.length := by
  suffices ∀ start, ds.foldl (fun n c => 10 * n + (digitValue? c).getD 0) start <
      (start + 1) * 10 ^ ds.length by
    have h := this 0
    rwa [Nat.zero_add, Nat.one_mul] at h
  induction ds with
  | nil =>
      intro start
      rw [List.foldl_nil, List.length_nil]
      omega
  | cons c ds ih =>
      intro start
      have hc := digitValue?_le c
      rw [List.foldl_cons, List.length_cons, Nat.pow_succ', ← Nat.mul_assoc]
      apply Nat.lt_of_lt_of_le (ih _)
      apply Nat.mul_le_mul_right
      omega

end Text

namespace Json

variable {v : Value} {cs rest : List Char} {fuel : Nat}

theorem isWritable_digits {whole : List Char} {n : Int} (h : ¬ digitLimit < whole.length)
    (hn : n.natAbs = Text.digitsValue whole) : (Value.int n).isWritable = true := by
  rw [Value.isWritable_int, Value.isShort_iff, hn]
  apply Nat.lt_of_lt_of_le (Text.digitsValue_lt whole)
  exact Nat.pow_le_pow_right (by decide) (Nat.le_of_not_lt h)

theorem isWritable_readNumber (h : readNumber cs = .ok (v, rest)) : v.isWritable = true := by
  dsimp only [readNumber] at h
  repeat' split at h
  all_goals cases h
  all_goals first
    | rfl
    | exact isWritable_digits ‹¬ digitLimit < _› (by simp)

theorem isWritable_words : ∀ w ∈ words, w.2.isWritable = true := by decide

theorem isWritable_readWord (h : readWord? cs = some (v, rest)) : v.isWritable = true := by
  obtain ⟨w, hw, hafter⟩ := List.exists_of_findSome?_eq_some h
  obtain ⟨rest, -, heq⟩ := Option.map_eq_some_iff.mp hafter
  cases heq
  exact isWritable_words w hw

/-! ### Values with parts -/

/-- What is read with a bound can be written. -/
structure ReadsWritable (fuel : Nat) : Prop where
  value : ∀ {cs v rest}, readValue fuel cs = .ok (v, rest) → v.isWritable = true
  items : ∀ {cs vs rest}, readItems fuel cs = .ok (vs, rest) → Value.allWritable vs = true
  entries : ∀ {cs es rest}, readEntries fuel cs = .ok (es, rest) → Value.entriesWritable es = true

theorem isWritable_readValue (ih : ReadsWritable fuel)
    (h : readValue (fuel + 1) cs = .ok (v, rest)) : v.isWritable = true := by
  rw [readValue.eq_def] at h
  simp only at h
  split at h
  · obtain ⟨p, -, h⟩ := bind_ok_iff.mp h
    cases h
    rfl
  · split at h
    · cases h
      rfl
    · obtain ⟨p, hp, h⟩ := bind_ok_iff.mp h
      cases h
      exact Value.entriesWritable_ofPairs (ih.entries hp)
  · split at h
    · cases h
      rfl
    · obtain ⟨p, hp, h⟩ := bind_ok_iff.mp h
      cases h
      exact ih.items hp
  · split at h
    · rename_i hword
      cases h
      exact isWritable_readWord hword
    · exact isWritable_readNumber h

theorem allWritable_readItems (ih : ReadsWritable fuel) {vs : List Value}
    (h : readItems (fuel + 1) cs = .ok (vs, rest)) : Value.allWritable vs = true := by
  rw [readItems] at h
  obtain ⟨⟨v, rest'⟩, hv, h⟩ := bind_ok_iff.mp h
  have hfirst := ih.value hv
  simp only at h
  split at h
  · cases h
    rw [Value.allWritable, hfirst]
    rfl
  · obtain ⟨⟨more, rest''⟩, hmore, h⟩ := bind_ok_iff.mp h
    cases h
    rw [Value.allWritable, hfirst, ih.items hmore]
    rfl
  · cases h

theorem entriesWritable_readEntries (ih : ReadsWritable fuel) {es : List (Value × Value)}
    (h : readEntries (fuel + 1) cs = .ok (es, rest)) : Value.entriesWritable es = true := by
  rw [readEntries.eq_def] at h
  simp only at h
  split at h
  · obtain ⟨⟨name, rest'⟩, -, h⟩ := bind_ok_iff.mp h
    simp only at h
    split at h
    · obtain ⟨⟨v, rest''⟩, hv, h⟩ := bind_ok_iff.mp h
      have hfirst := ih.value hv
      simp only at h
      split at h
      · cases h
        rw [Value.entriesWritable, hfirst]
        rfl
      · obtain ⟨⟨more, rest''⟩, hmore, h⟩ := bind_ok_iff.mp h
        cases h
        rw [Value.entriesWritable, hfirst, ih.entries hmore]
        rfl
      · cases h
    · cases h
  · cases h

theorem readsWritable (fuel : Nat) : ReadsWritable fuel := by
  induction fuel with
  | zero =>
      constructor <;> intro cs v rest h <;> cases h
  | succ fuel ih =>
      exact ⟨isWritable_readValue ih, allWritable_readItems ih, entriesWritable_readEntries ih⟩

/-- A value that is read can be written. -/
theorem isWritable_read {s : String} (h : read s = .ok v) : v.isWritable = true := by
  rw [read] at h
  cases hall : readAll s.toList with
  | error e =>
      rw [hall] at h
      cases h
  | ok w =>
      rw [hall] at h
      cases h
      rw [readAll] at hall
      split at hall
      · cases hall
      · obtain ⟨p, hp, hall⟩ := bind_ok_iff.mp hall
        simp only at hall
        split at hall
        · cases hall
          exact (readsWritable _).value hp
        · cases hall

theorem isWritable_readBytes {bytes : List UInt8} (h : readBytes? bytes = some v) :
    v.isWritable = true := by
  simp only [readBytes?] at h
  split at h
  · cases h
  · split at h
    · rename_i htext
      cases h
      exact isWritable_read htext
    · cases h

end Json

end TableAudit
