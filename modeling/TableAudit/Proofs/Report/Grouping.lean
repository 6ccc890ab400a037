import Mathlib.Data.List.Basic
import Mathlib.Data.List.Induction
import TableAudit.Report.Aggregate

/-!
# Groups and the index of texts

What is grouped by a key can be found again by it: the group of a key is what has that key, in
order. So the index of a column's texts gives for every text the rows that hold it, each once and
in ascending order, and failures of different rows become one violation each.
-/

namespace TableAudit

section Groups

variable {κ α β : Type} [BEq κ] [LawfulBEq κ] {key : α → κ}

omit [LawfulBEq κ] in
theorem groupBy_concat (key : α → κ) (as : List α) (a : α) :
    groupBy key (as ++ [a]) = groupInsert (groupBy key as) (key a) a := by
  simp [groupBy]

theorem lookup_groupInsert (gs : List (κ × List α)) (k k' : κ) (a : α) :
    ((groupInsert gs k a).lookup k').getD [] =
      (gs.lookup k').getD [] ++ if k == k' then [a] else [] := by
  induction gs with
  | nil =>
      by_cases h : k = k'
      · simp [groupInsert, h]
      · have hb : (k' == k) = false := beq_false_of_ne (Ne.symm h)
        simp [groupInsert, List.lookup_cons, hb, h]
  | cons g gs ih =>
      obtain ⟨k₀, bs⟩ := g
      simp only [groupInsert]
      split
      next heq =>
        obtain rfl := eq_of_beq heq
        by_cases h : k₀ = k'
        · simp [h]
        · have hb : (k' == k₀) = false := beq_false_of_ne (Ne.symm h)
          simp [List.lookup_cons, hb, h]
      next hne =>
        by_cases h : k' = k₀
        · subst h
          have hb : (k == k') = false := beq_false_of_ne fun he => hne (by simp [he])
          simp [hb]
        · have hb : (k' == k₀) = false := beq_false_of_ne h
          simpa [List.lookup_cons, hb] using ih

/-- The group of a key is what has the key. -/
theorem lookup_groupBy (key : α → κ) (as : List α) (k : κ) :
    ((groupBy key as).lookup k).getD [] = as.filter (key · == k) := by
  induction as using List.reverseRecOn with
  | nil => rfl
  | append_singleton as a ih =>
      rw [groupBy_concat, lookup_groupInsert, ih, List.filter_append]
      congr 1
      cases h : key a == k <;> simp [h]

theorem groupInsert_of_new {gs : List (κ × List α)} {k : κ} (h : k ∉ gs.map (·.1)) (a : α) :
    groupInsert gs k a = gs ++ [(k, [a])] := by
  induction gs with
  | nil => rfl
  | cons g gs ih =>
      simp only [List.map_cons, List.mem_cons, not_or] at h
      have hb : (g.1 == k) = false := beq_false_of_ne (Ne.symm h.1)
      rw [groupInsert, hb, if_neg Bool.false_ne_true, ih h.2, List.cons_append]

/-- Where keys differ every group has one member. -/
theorem groupBy_of_nodup {as : List α} (h : (as.map key).Nodup) :
    groupBy key as = as.map fun a => (key a, [a]) := by
  induction as using List.reverseRecOn with
  | nil => rfl
  | append_singleton as a ih =>
      rw [List.map_append, List.nodup_append] at h
      obtain ⟨has, -, hdisjoint⟩ := h
      rw [groupBy_concat, ih has, groupInsert_of_new, List.map_append]
      · rfl
      · intro hmem
        rw [List.map_map] at hmem
        exact hdisjoint (key a) hmem (key a) (by simp) rfl

theorem keys_groupInsert (gs : List (κ × List α)) (k : κ) (a : α) :
    (groupInsert gs k a).map (·.1) =
      if k ∈ gs.map (·.1) then gs.map (·.1) else gs.map (·.1) ++ [k] := by
  induction gs with
  | nil => simp [groupInsert]
  | cons g gs ih =>
      obtain ⟨k', as⟩ := g
      rw [groupInsert]
      split
      next heq => simp [eq_of_beq heq]
      next hne =>
        have hk : k ≠ k' := fun h => hne (beq_iff_eq.mpr h.symm)
        rw [List.map_cons, ih]
        by_cases hmem : k ∈ gs.map (·.1)
        · simp [hmem]
        · simp [hmem, hk]

theorem mem_keys_groupBy {as : List α} {k : κ} :
    k ∈ (groupBy key as).map (·.1) ↔ k ∈ as.map key := by
  induction as using List.reverseRecOn with
  | nil => rfl
  | append_singleton as a ih =>
      rw [groupBy_concat, keys_groupInsert, List.map_append, List.mem_append, ← ih]
      split
      next h =>
        rw [List.map_singleton, List.mem_singleton]
        exact ⟨Or.inl, fun hk => hk.elim id fun he => he ▸ h⟩
      next => rw [List.mem_append, List.map_singleton]

/-- Groups come in the order in which their keys occur first. -/
theorem keys_groupBy_pairwise (key : α → κ) (as : List α) :
    ((groupBy key as).map (·.1)).Pairwise fun k k' =>
      (as.map key).idxOf k < (as.map key).idxOf k' := by
  induction as using List.reverseRecOn with
  | nil => exact .nil
  | append_singleton as a ih =>
      -- a key that is known has its place among the keys before
      have hold : ((groupBy key as).map (·.1)).Pairwise fun k k' =>
          ((as ++ [a]).map key).idxOf k < ((as ++ [a]).map key).idxOf k' := by
        refine ih.imp_of_mem fun hk hk' h => ?_
        rw [List.map_append, List.idxOf_append_of_mem (mem_keys_groupBy.mp hk),
          List.idxOf_append_of_mem (mem_keys_groupBy.mp hk')]
        exact h
      rw [groupBy_concat, keys_groupInsert]
      split
      next => exact hold
      next hnew =>
        rw [mem_keys_groupBy] at hnew
        refine List.pairwise_append.mpr ⟨hold, List.pairwise_singleton _ _, fun k hk k' hk' => ?_⟩
        obtain rfl := List.mem_singleton.mp hk'
        rw [List.map_append, List.idxOf_append_of_mem (mem_keys_groupBy.mp hk),
          List.idxOf_append_of_notMem hnew]
        exact Nat.lt_of_lt_of_le (List.idxOf_lt_length_of_mem (mem_keys_groupBy.mp hk))
          (Nat.le_add_right _ _)

theorem lookup_of_mem {gs : List (κ × β)} {k : κ} {b : β} (h : (gs.map (·.1)).Nodup)
    (hmem : (k, b) ∈ gs) : gs.lookup k = some b := by
  induction gs with
  | nil => cases hmem
  | cons g gs ih =>
      obtain ⟨k', b'⟩ := g
      obtain ⟨hnew, hrest⟩ := List.nodup_cons.mp h
      obtain heq | hmem := List.mem_cons.mp hmem
      · cases heq
        simp
      · have hkey : k ∈ gs.map (·.1) := List.mem_map_of_mem hmem
        have hne : (k == k') = false := beq_false_of_ne fun he => hnew (he ▸ hkey)
        rw [List.lookup_cons, hne]
        exact ih hrest hmem

theorem keys_groupBy_nodup (key : α → κ) (as : List α) :
    ((groupBy key as).map (·.1)).Nodup := by
  refine (keys_groupBy_pairwise key as).imp fun {k k'} h he => ?_
  rw [he] at h
  exact Nat.lt_irrefl _ h

/-- There is one group for each key, with what has that key. -/
theorem mem_groupBy {as g : List α} {k : κ} :
    (k, g) ∈ groupBy key as ↔ k ∈ as.map key ∧ g = as.filter (key · == k) := by
  have hgroup {g : List α} (h : (k, g) ∈ groupBy key as) : g = as.filter (key · == k) := by
    rw [← lookup_groupBy, lookup_of_mem (keys_groupBy_nodup key as) h, Option.getD_some]
  constructor
  · exact fun h => ⟨mem_keys_groupBy.mp (List.mem_map_of_mem h), hgroup h⟩
  · rintro ⟨hk, rfl⟩
    obtain ⟨⟨k', g⟩, hg, rfl⟩ := List.mem_map.mp (mem_keys_groupBy.mpr hk)
    rwa [← hgroup hg]

omit [LawfulBEq κ] in
theorem lookup_map_snd (f : α → β) (gs : List (κ × α)) (k : κ) :
    (gs.map fun g => (g.1, f g.2)).lookup k = (gs.lookup k).map f := by
  induction gs with
  | nil => rfl
  | cons g gs ih =>
      obtain ⟨k', a⟩ := g
      simp only [List.map_cons, List.lookup_cons, ih]
      cases k == k' <;> rfl

end Groups

theorem mem_firstOccurrences {s : String} {ss : List String} :
    s ∈ firstOccurrences ss ↔ s ∈ ss := by
  induction ss with
  | nil => rfl
  | cons t ss ih =>
      simp only [firstOccurrences, List.mem_cons, List.mem_filter, ih]
      by_cases h : s = t
      · simp [h]
      · simp [h]

namespace ValueIndex

variable {values : List String} {key : String} {n : Nat}

/-- The index gives for a text all rows that hold it. -/
theorem rows_ofTexts (h : key ≠ "") :
    (ofTexts values).rows key =
      ((values.zipIdx 1).filter fun e => Text.trim e.1 == key).map (·.2) := by
  have hmap : ((ofTexts values).lookup key).getD [] =
      (((groupBy (·.1) (((values.zipIdx 1).map fun e => (Text.trim e.1, e.2)).filter
        (·.1 ≠ ""))).lookup key).getD []).map (·.2) := by
    rw [ofTexts, lookup_map_snd (fun g : List (String × Nat) => g.map (·.2))]
    cases (groupBy (·.1) (((values.zipIdx 1).map fun e => (Text.trim e.1, e.2)).filter
      (·.1 ≠ ""))).lookup key <;> rfl
  rw [rows, hmap, lookup_groupBy, List.filter_filter, List.filter_map, List.map_map]
  congr 1
  apply List.filter_congr
  intro e _
  by_cases he : Text.trim e.1 = key
  · simp [he, h]
  · simp [he]

/-- They come in ascending order. -/
theorem rows_ascending (h : key ≠ "") : ((ofTexts values).rows key).Pairwise (· < ·) := by
  have hall : ((values.zipIdx 1).map (·.2)).Pairwise (· < ·) := by
    rw [List.zipIdx_map_snd]
    exact List.pairwise_lt_range'
  rw [rows_ofTexts h]
  exact hall.sublist (List.filter_sublist.map _)

theorem mem_rows (h : key ≠ "") :
    n ∈ (ofTexts values).rows key ↔ 1 ≤ n ∧ (values[n - 1]?).map Text.trim = some key := by
  simp only [rows_ofTexts h, List.mem_map, List.mem_filter, List.mem_zipIdx_iff_le_and_getElem?_sub,
    beq_iff_eq, Option.map_eq_some_iff]
  constructor
  · rintro ⟨⟨v, m⟩, ⟨⟨hm, hv⟩, hkey⟩, rfl⟩
    exact ⟨hm, v, hv, hkey⟩
  · rintro ⟨hn, v, hv, hkey⟩
    exact ⟨(v, n), ⟨⟨hn, hv⟩, hkey⟩, rfl⟩

end ValueIndex

/-! ### Violations -/

section Violations

variable {cf : ColumnFailures} {v : Violation} {f : Failure} {ts : String} {n : Nat}

/-- Failures of different rows are one violation each. -/
theorem mem_violations (h : (cf.failures.map (·.rowNumber)).Nodup) :
    v ∈ cf.violations ts ↔ ∃ f ∈ cf.failures, v = .ofFailures cf ts f.rowNumber [f] := by
  rw [ColumnFailures.violations, groupBy_of_nodup h, List.map_map, List.mem_map]
  simp only [Function.comp_def, eq_comm]

theorem isUniqueness_ofFailures : (Violation.ofFailures cf ts n [f]).isUniqueness = true ↔
    uniquenessCode ∈ f.errors.map (·.code) := by
  simp [Violation.isUniqueness, Violation.ofFailures, mem_firstOccurrences]

/-- A violation names the other rows that hold the text if uniqueness is among its problems and
the text is not blank. -/
theorem conflictRows_ofFailures : (Violation.ofFailures cf ts n [f]).conflictRows =
    if (Violation.ofFailures cf ts n [f]).isUniqueness = true ∧ Text.trim f.cellValue ≠ "" then
      some ((cf.index.rows (Text.trim f.cellValue)).filter (· ≠ n))
    else none := by
  simp [Violation.isUniqueness, Violation.ofFailures, conflictRows?]

end Violations

end TableAudit
