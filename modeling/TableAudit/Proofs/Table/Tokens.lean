import Mathlib.Data.List.Nodup
import Mathlib.Data.List.Perm.Subperm

/-!
# Chains of tokens

Every token leads to another one or to none. Going from token to token comes to an end just if no
token is come to twice. With finitely many tokens to be led to it ends after all of them at the
latest.
-/

namespace TableAudit.Tokens

variable {τ : Type} {next : τ → Option τ} {tokens : List τ} {t t' s a : τ} {n k : Nat}

/-- The tokens that are come to, up to a number of them. -/
def asked (next : τ → Option τ) : Nat → τ → List τ
  | 0, _ => []
  | n + 1, t =>
    match next t with
    | none => [t]
    | some t' => t :: asked next n t'

/-- The token that leads nowhere, if it is among the first ones. -/
def last? (next : τ → Option τ) : Nat → τ → Option τ
  | 0, _ => none
  | n + 1, t =>
    match next t with
    | none => some t
    | some t' => last? next n t'

theorem asked_none (h : next t = none) (n : Nat) : asked next (n + 1) t = [t] := by
  rw [asked, h]

theorem asked_some (h : next t = some t') (n : Nat) :
    asked next (n + 1) t = t :: asked next n t' := by
  rw [asked, h]

theorem last?_none (h : next t = none) (n : Nat) : last? next (n + 1) t = some t := by
  rw [last?, h]

theorem last?_some (h : next t = some t') (n : Nat) :
    last? next (n + 1) t = last? next n t' := by
  rw [last?, h]

/-- A token that was found to be the last one stays it. -/
theorem last?_succ (h : last? next n t = some a) : last? next (n + 1) t = some a := by
  induction n generalizing t with
  | zero => cases h
  | succ n ih =>
      cases ht : next t with
      | none =>
          rw [last?_none ht] at h ⊢
          exact h
      | some t' =>
          rw [last?_some ht] at h ⊢
          exact ih h

theorem last?_le (h : last? next n t = some a) (hk : n ≤ k) : last? next k t = some a := by
  induction hk with
  | refl => exact h
  | step _ ih => exact last?_succ ih

theorem last?_unique (h : last? next n t = some a) (hk : last? next k t = some s) : a = s := by
  have hn := last?_le h (Nat.le_max_left n k)
  have hs := last?_le hk (Nat.le_max_right n k)
  exact Option.some.inj (hn.symm.trans hs)

/-- Without a last token among them, as many tokens are come to as are allowed. -/
theorem length_asked (h : last? next n t = none) : (asked next n t).length = n := by
  induction n generalizing t with
  | zero => rfl
  | succ n ih =>
      cases ht : next t with
      | none =>
          rw [last?_none ht] at h
          cases h
      | some t' =>
          rw [last?_some ht] at h
          rw [asked_some ht, List.length_cons, ih h]

/-- One token more is come to if the last one is not among the first ones. -/
theorem length_asked_succ (h : last? next n t = none) : (asked next (n + 1) t).length = n + 1 := by
  induction n generalizing t with
  | zero =>
      cases ht : next t with
      | none => rw [asked_none ht, List.length_singleton]
      | some t' => rw [asked_some ht, List.length_cons, asked, List.length_nil]
  | succ n ih =>
      cases ht : next t with
      | none =>
          rw [last?_none ht] at h
          cases h
      | some t' =>
          rw [last?_some ht] at h
          rw [asked_some ht, List.length_cons, ih h]

/-! ### Coming back -/

/-- From every token on the way, the end is the same and no farther. -/
theorem last?_of_mem (hs : s ∈ asked next k t) (h : last? next n t = some a) :
    last? next n s = some a := by
  induction k generalizing n t with
  | zero => cases hs
  | succ k ih =>
      cases ht : next t with
      | none =>
          rw [asked_none ht, List.mem_singleton] at hs
          rwa [hs]
      | some t' =>
          rw [asked_some ht] at hs
          obtain rfl | hs := List.mem_cons.mp hs
          · exact h
          · cases n with
            | zero => cases h
            | succ n =>
                rw [last?_some ht] at h
                exact last?_succ (ih hs h)

/-- A token that is come back to has no end after it. -/
theorem last?_of_return (ht : next t = some t') (hs : t ∈ asked next k t') (n : Nat) :
    last? next n t' = none := by
  induction n with
  | zero => rfl
  | succ n ih =>
      by_contra hne
      obtain ⟨a, ha⟩ := Option.ne_none_iff_exists'.mp hne
      have hback := last?_of_mem hs ha
      rw [last?_some ht, ih] at hback
      cases hback

theorem nodup_asked (h : last? next n t = some a) (k : Nat) : (asked next k t).Nodup := by
  induction k generalizing n t with
  | zero => exact List.nodup_nil
  | succ k ih =>
      cases ht : next t with
      | none =>
          rw [asked_none ht]
          exact List.nodup_singleton t
      | some t' =>
          cases n with
          | zero => cases h
          | succ n =>
              rw [last?_some ht] at h
              rw [asked_some ht, List.nodup_cons]
              refine ⟨fun hs => ?_, ih h⟩
              rw [last?_of_return ht hs] at h
              cases h

/-- Two tokens that lead to each other have no end after them. -/
theorem last?_of_swing (ht : next t = some a) (ha : next a = some s) (hs : next s = some a)
    (n : Nat) : last? next n t = none := by
  have hback : ∀ k, a ∈ asked next (k + 2) s := fun k => by
    rw [asked_some hs, List.mem_cons, asked]
    refine Or.inr ?_
    split <;> simp
  cases n with
  | zero => rfl
  | succ n =>
      rw [last?_some ht]
      cases n with
      | zero => rfl
      | succ n =>
          rw [last?_some ha]
          exact last?_of_return ha (hback 0) n

/-! ### Finitely many tokens -/

theorem mem_tokens (hT : ∀ t t', next t = some t' → t' ∈ tokens) (hs : s ∈ asked next n t) :
    s = t ∨ s ∈ tokens := by
  induction n generalizing t with
  | zero => cases hs
  | succ n ih =>
      cases ht : next t with
      | none =>
          rw [asked_none ht] at hs
          exact Or.inl (List.mem_singleton.mp hs)
      | some t' =>
          rw [asked_some ht] at hs
          obtain hs | hs := List.mem_cons.mp hs
          · exact Or.inl hs
          · obtain rfl | hs := ih hs
            · exact Or.inr (hT t s ht)
            · exact Or.inr hs

/-- If no token is come to twice, there are no more than those to be led to and the first one. -/
theorem length_asked_of_nodup (hT : ∀ t t', next t = some t' → t' ∈ tokens)
    (h : (asked next n t).Nodup) : (asked next n t).length ≤ tokens.length + 1 := by
  have hsub : asked next n t ⊆ t :: tokens := by
    intro s hs
    rw [List.mem_cons]
    exact mem_tokens hT hs
  calc (asked next n t).length ≤ (t :: tokens).length := (h.subperm hsub).length_le
    _ = tokens.length + 1 := List.length_cons

/-- If no token is come to twice, the last one is among as many as there are to be led to and the
first one. -/
theorem last?_within (hT : ∀ t t', next t = some t' → t' ∈ tokens)
    (h : ∀ n, (asked next n t).Nodup) (hn : tokens.length < n) :
    ∃ a, last? next n t = some a := by
  rw [← Option.ne_none_iff_exists']
  intro hnone
  have hlength := length_asked_succ hnone
  have hle := length_asked_of_nodup hT (h (n + 1))
  omega

/-- Going from token to token comes to an end just if no token is come to twice. -/
theorem ends_iff (hT : ∀ t t', next t = some t' → t' ∈ tokens) (t : τ) :
    (∃ n a, last? next n t = some a) ↔ ∀ n, (asked next n t).Nodup := by
  constructor
  · rintro ⟨n, a, ha⟩ k
    exact nodup_asked ha k
  · intro h
    exact ⟨tokens.length + 1, last?_within hT h (Nat.lt_succ_self _)⟩

end TableAudit.Tokens
