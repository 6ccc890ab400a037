import TableAudit.Fault

/-!
# Operations without a result

An operation that may fail either has a result or an error, and what is done with a result later
makes no error of it.
-/

namespace TableAudit

variable {ε α β γ : Type} {x : Except ε α} {g : α → β} {f : α → Except ε β} {b : β}

theorem ok_ne_error (a : α) (e : ε) : (.ok a : Except ε α) ≠ .error e :=
  nofun

theorem exists_error_iff : (∃ f, x = .error f) ↔ ¬ ∃ a, x = .ok a := by
  cases x <;> simp

theorem map_error_iff : (∃ f, x.map g = .error f) ↔ ∃ f, x = .error f := by
  cases x <;> simp [Except.map]

theorem map_ok_iff : x.map g = .ok b ↔ ∃ a, x = .ok a ∧ g a = b := by
  cases x <;> simp [Except.map]

theorem ok_bind (a : α) (f : α → Except ε β) : (Except.ok a >>= f) = f a :=
  rfl

/-- Two operations have a result if both have one. -/
theorem bind_ok_iff : (x >>= f) = .ok b ↔ ∃ a, x = .ok a ∧ f a = .ok b := by
  cases x <;> simp [bind, Except.bind]

/-- Two operations do not end with an error that neither of them ends with. -/
theorem bind_ne_error {e : ε} (hx : x ≠ .error e) (hf : ∀ a, f a ≠ .error e) :
    (x >>= f) ≠ .error e := by
  cases x with
  | ok a => exact hf a
  | error e' => exact fun h => hx (congrArg Except.error (Except.error.inj h))

theorem map_bind (x : Except ε α) (f : α → Except ε β) (g : β → γ) :
    (x >>= f).map g = x >>= fun a => (f a).map g := by
  cases x <;> rfl

/-- All of a list have results of a kind if each has one. -/
theorem exists_mapM_iff {P : β → Prop} {as : List α} :
    (∃ bs, as.mapM f = .ok bs ∧ ∀ b ∈ bs, P b) ↔ ∀ a ∈ as, ∃ b, f a = .ok b ∧ P b := by
  induction as with
  | nil => exact iff_of_true ⟨[], rfl, List.forall_mem_nil _⟩ (List.forall_mem_nil _)
  | cons a as ih =>
      rw [List.forall_mem_cons, ← ih, List.mapM_cons]
      constructor
      · rintro ⟨bs, h, hP⟩
        obtain ⟨b, hb, h⟩ := bind_ok_iff.mp h
        obtain ⟨cs, hcs, h⟩ := bind_ok_iff.mp h
        obtain rfl := Except.ok.inj h
        rw [List.forall_mem_cons] at hP
        exact ⟨⟨b, hb, hP.1⟩, cs, hcs, hP.2⟩
      · rintro ⟨⟨b, hb, hPb⟩, bs, hbs, hP⟩
        refine ⟨b :: bs, ?_, List.forall_mem_cons.mpr ⟨hPb, hP⟩⟩
        rw [hb, hbs]
        rfl

theorem mapM_ne_error {e : ε} {as : List α} (h : ∀ a, f a ≠ .error e) :
    as.mapM f ≠ .error e := by
  induction as with
  | nil => exact ok_ne_error _ _
  | cons a as ih =>
      rw [List.mapM_cons]
      exact bind_ne_error (h a) fun b => bind_ne_error ih fun bs => ok_ne_error _ _

/-- Whether an operation ends with a fault. -/
def failsWith (x : Except Fault α) (f : Fault) : Bool :=
  match x with
  | .error g => g == f
  | .ok _ => false

theorem failsWith_iff {x : Except Fault α} {f : Fault} : failsWith x f = true ↔ x = .error f := by
  cases x <;> simp [failsWith]

end TableAudit
