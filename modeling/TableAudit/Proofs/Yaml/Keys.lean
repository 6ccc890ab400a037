import TableAudit.Proofs.Source.Loops
import TableAudit.Yaml.Value

/-!
# Keys of written mappings

No text is twice a key of a mapping that a document writes: an entry with the key of an earlier one
takes its place. Whatever was merged into a mapping, the values in it are those of parts of the
document, so the same is true of the mappings that stand in it.
-/

namespace TableAudit

theorem mapError_ok_iff {ε ε' α : Type} {x : Except ε α} {f : ε → ε'} {a : α} :
    x.mapError f = .ok a ↔ x = .ok a := by
  cases x <;> simp [Except.mapError]

namespace Value

variable {entries : List (Value × Value)} {e : Value × Value} {k v w : Value} {s : String}

/-- The keys that are texts, in order. -/
def textKeys (entries : List (Value × Value)) : List String :=
  entries.filterMap (·.1.text?)

/-- No text is twice a key of the value, if it is a mapping. -/
def HasDistinctKeys : Value → Prop
  | map entries => (textKeys entries).Nodup
  | _ => True

theorem text?_eq_some : k.text? = some s ↔ k = text s := by
  cases k <;> simp [text?]

theorem mem_textKeys : s ∈ textKeys entries ↔ ∃ e ∈ entries, e.1 = text s := by
  simp only [textKeys, List.mem_filterMap, text?_eq_some]

theorem textKeys_cons (e : Value × Value) (entries : List (Value × Value)) :
    textKeys (e :: entries) = e.1.text?.toList ++ textKeys entries := by
  cases he : e.1.text? <;> simp [textKeys, he]

theorem mem_insert (h : e ∈ insert entries k v) :
    (∃ e' ∈ entries, e'.1 = e.1 ∧ (e = e' ∨ e.2 = v)) ∨ e = (k, v) := by
  induction entries with
  | nil => exact .inr (List.mem_singleton.mp h)
  | cons x entries ih =>
      obtain ⟨k', v'⟩ := x
      rw [insert] at h
      split at h
      · obtain rfl | h := List.mem_cons.mp h
        · exact .inl ⟨(k', v'), List.mem_cons_self, rfl, .inr rfl⟩
        · exact .inl ⟨e, List.mem_cons_of_mem _ h, rfl, .inl rfl⟩
      · obtain rfl | h := List.mem_cons.mp h
        · exact .inl ⟨(k', v'), List.mem_cons_self, rfl, .inl rfl⟩
        · obtain ⟨e', he', hx⟩ | hx := ih h
          · exact .inl ⟨e', List.mem_cons_of_mem _ he', hx⟩
          · exact .inr hx

theorem nodup_textKeys_insert (h : (textKeys entries).Nodup) (k v : Value) :
    (textKeys (insert entries k v)).Nodup := by
  induction entries with
  | nil => cases k <;> simp [insert, textKeys, text?]
  | cons x entries ih =>
      obtain ⟨k', v'⟩ := x
      rw [textKeys_cons, List.nodup_append] at h
      obtain ⟨hhead, htail, hdisjoint⟩ := h
      rw [insert]
      split
      · rw [textKeys_cons, List.nodup_append]
        exact ⟨hhead, htail, hdisjoint⟩
      next hne =>
        rw [textKeys_cons, List.nodup_append]
        refine ⟨hhead, ih htail, fun s hs t ht heq => ?_⟩
        subst heq
        obtain ⟨e, he, hkey⟩ := mem_textKeys.mp ht
        have hk' : k' = text s := text?_eq_some.mp (Option.mem_toList.mp hs)
        obtain ⟨e', he', hsame, -⟩ | rfl := mem_insert he
        · exact hdisjoint s hs s (mem_textKeys.mpr ⟨e', he', hsame.trans hkey⟩) rfl
        · dsimp only at hkey
          exact hne (by rw [hk', hkey]; simp [eqv])

/-- What holds of a mapping without entries and is kept when a pair is entered holds of the mapping
that arises from pairs. -/
theorem ofPairs_induction {P : List (Value × Value) → Prop} (hnil : P [])
    (hinsert : ∀ known, P known → ∀ p ∈ entries, P (insert known p.1 p.2)) :
    P (ofPairs entries) := by
  suffices ∀ known, P known → P (entries.foldl (fun es p => insert es p.1 p.2) known) from
    this [] hnil
  induction entries with
  | nil => exact fun known hk => hk
  | cons p entries ih =>
      intro known hk
      exact ih (fun known hk q hq => hinsert known hk q (List.mem_cons_of_mem _ hq)) _
        (hinsert known hk p List.mem_cons_self)

/-- No text is twice a key of a mapping that arises from pairs. -/
theorem ofPairs_hasDistinctKeys (entries : List (Value × Value)) :
    (map (ofPairs entries)).HasDistinctKeys :=
  ofPairs_induction (P := fun es => (textKeys es).Nodup) List.nodup_nil
    fun _ h p _ => nodup_textKeys_insert h p.1 p.2

/-- The values in a mapping that arises from pairs are those of the pairs. -/
theorem mem_ofPairs (h : e ∈ ofPairs entries) : ∃ p ∈ entries, p.2 = e.2 := by
  suffices ∀ e ∈ ofPairs entries, ∃ p ∈ entries, p.2 = e.2 from this e h
  refine ofPairs_induction (P := fun es => ∀ e ∈ es, ∃ p ∈ entries, p.2 = e.2) nofun ?_
  intro known hk p hp e he
  obtain ⟨e', he', -, rfl | hv⟩ | rfl := mem_insert he
  · exact hk _ he'
  · exact ⟨p, hp, hv.symm⟩
  · exact ⟨p, hp, rfl⟩

end Value

namespace Yaml

variable {n : Node} {ns : List Node} {es : List (Node × Node)} {entries : List (Value × Value)}
  {found : Entries} {v : Value}

/-- Every value of some entries is the value of a node. -/
def FromNodes (entries : List (Value × Value)) : Prop :=
  ∀ e ∈ entries, ∃ n : Node, n.value = .ok e.2

theorem FromNodes.append {first second : List (Value × Value)} (hfirst : FromNodes first)
    (hsecond : FromNodes second) : FromNodes (first ++ second) :=
  fun e he => (List.mem_append.mp he).elim (hfirst e) (hsecond e)

/-- A part of a mapping either merges entries into it or is an entry of its own. -/
theorem entryValues_cons {k : Node} (h : entryValues ((k, n) :: es) = .ok found) :
    ∃ rest, entryValues es = .ok rest ∧
      ((∃ merged, n.merges = .ok merged ∧ found = ⟨merged ++ rest.merged, rest.own⟩) ∨
        ∃ key v, n.value = .ok v ∧ found = ⟨rest.merged, (key, v) :: rest.own⟩) := by
  by_cases hk : ∃ s, k = .scalar .merge s
  · obtain ⟨s, rfl⟩ := hk
    simp only [entryValues, bind_ok_iff] at h
    obtain ⟨merged, hmerged, rest, hrest, heq⟩ := h
    cases heq
    exact ⟨rest, hrest, .inl ⟨merged, hmerged, rfl⟩⟩
  · rw [entryValues] at h
    simp only [bind_ok_iff] at h
    obtain ⟨key, -, -, -, v, hv, rest, hrest, heq⟩ := h
    cases heq
    exact ⟨rest, hrest, .inr ⟨key, v, hv, rfl⟩⟩
    exact fun s hs => hk ⟨s, hs⟩

mutual

/-- The entries that are merged into a mapping are entries of nodes. -/
theorem merges_fromNodes : ∀ {n : Node} {entries : List (Value × Value)},
    n.merges = .ok entries → FromNodes entries
  | .mapping _ es, entries, h => by
      rw [Node.merges, bind_ok_iff] at h
      obtain ⟨found, hfound, heq⟩ := h
      cases heq
      exact entryValues_fromNodes hfound
  | .sequence _ ns, entries, h => by
      rw [Node.merges] at h
      exact mergedValues_fromNodes h
  | .scalar _ _, _, h => by
      simp [Node.merges] at h

theorem mergedValues_fromNodes : ∀ {ns : List Node} {entries : List (Value × Value)},
    mergedValues ns = .ok entries → FromNodes entries
  | [], _, h => by
      rw [mergedValues] at h
      cases h
      exact nofun
  | n :: ns, entries, h => by
      simp only [mergedValues, bind_ok_iff] at h
      obtain ⟨first, hfirst, others, hothers, heq⟩ := h
      cases heq
      exact (mergedValues_fromNodes hothers).append (entries_fromNodes hfirst)

theorem entries_fromNodes : ∀ {n : Node} {entries : List (Value × Value)},
    n.entries = .ok entries → FromNodes entries
  | .mapping _ es, entries, h => by
      rw [Node.entries, bind_ok_iff] at h
      obtain ⟨found, hfound, heq⟩ := h
      cases heq
      exact entryValues_fromNodes hfound
  | .sequence _ _, _, h => by
      simp [Node.entries] at h
  | .scalar _ _, _, h => by
      simp [Node.entries] at h

theorem entryValues_fromNodes : ∀ {es : List (Node × Node)} {found : Entries},
    entryValues es = .ok found → FromNodes found.all
  | [], _, h => by
      rw [entryValues] at h
      cases h
      exact nofun
  | (_, n) :: es, _, h => by
      obtain ⟨rest, hrest, ⟨merged, hmerged, rfl⟩ | ⟨key, v, hv, rfl⟩⟩ := entryValues_cons h
      · rw [Entries.all, List.append_assoc]
        exact (merges_fromNodes hmerged).append (entryValues_fromNodes hrest)
      · intro e he
        obtain he | he := List.mem_append.mp he
        · exact entryValues_fromNodes hrest e (List.mem_append_left _ he)
        · obtain rfl | he := List.mem_cons.mp he
          · exact ⟨n, hv⟩
          · exact entryValues_fromNodes hrest e (List.mem_append_right _ he)

end

/-- No text stands for a mapping. -/
theorem valueOf_ne_map (k : Kind) (s : String) : k.valueOf s ≠ .ok (.map entries) := by
  intro h
  cases k with
  | bool =>
      rw [Kind.valueOf] at h
      split at h <;> cases h
  | int =>
      rw [Kind.valueOf, mapError_ok_iff] at h
      cases hi : integer s <;> simp [hi, Except.map] at h
  | float =>
      rw [Kind.valueOf, mapError_ok_iff] at h
      cases hx : double s <;> simp [hx, Except.map] at h
  | time =>
      rw [Kind.valueOf, mapError_ok_iff, Yaml.time] at h
      split at h
      · cases h
      · split at h
        · cases h
        · cases h
        · cases h
        · rw [momentOf] at h
          split at h <;> cases h
  | _ => cases h

/-- A node whose value is a mapping has it from pairs, and the values in it are those of nodes. -/
theorem value_map (h : n.value = .ok (.map entries)) :
    (Value.map entries).HasDistinctKeys ∧ FromNodes entries := by
  cases n with
  | scalar k s =>
      rw [Node.value] at h
      exact absurd h (valueOf_ne_map k s)
  | sequence k ns => cases k <;> simp [Node.value, bind_ok_iff] at h
  | mapping k es =>
      by_cases hk : k = .mapping
      · subst hk
        rw [Node.value, bind_ok_iff] at h
        obtain ⟨found, hfound, heq⟩ := h
        cases heq
        refine ⟨Value.ofPairs_hasDistinctKeys _, fun e he => ?_⟩
        obtain ⟨p, hp, heq⟩ := Value.mem_ofPairs he
        exact heq ▸ entryValues_fromNodes hfound p hp
      · simp [Node.value, hk] at h

theorem value_hasDistinctKeys (h : n.value = .ok v) : v.HasDistinctKeys := by
  cases v with
  | map entries => exact (value_map h).1
  | _ => trivial

/-- In a mapping that a text writes, and in the mappings in it, no text is twice a key. -/
theorem read_hasDistinctKeys {s : String} (h : read s = .ok (.map entries)) :
    (Value.map entries).HasDistinctKeys ∧ ∀ e ∈ entries, e.2.HasDistinctKeys := by
  simp only [read, bind_ok_iff] at h
  obtain ⟨-, -, tokens, -, n, -, h⟩ := h
  cases n with
  | none => cases h
  | some n =>
      obtain ⟨hkeys, hnodes⟩ := value_map h
      refine ⟨hkeys, fun e he => ?_⟩
      obtain ⟨inner, hinner⟩ := hnodes e he
      exact value_hasDistinctKeys hinner

end Yaml

end TableAudit
