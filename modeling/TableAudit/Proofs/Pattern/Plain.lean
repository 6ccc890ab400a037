import Mathlib.Data.List.Basic
import TableAudit.Pattern.Match

/-!
# Plain patterns

A plain pattern has characters, classes, anchors, alternatives and greedy repetitions of single
characters, but no groups, assertions or references. What it matches can be said without the order
in which the matcher tries: a node spans some of the text, depending on what stands before and
behind. The matcher finds just the points to which a node spans, and a pattern occurs in a text just
if it spans some part of it.
-/

namespace TableAudit.Pattern

variable {ws : List (Option Width)} {f : Flags} {n : Node} {p : Char → Bool} {x y z : Point}
variable {before w rest : List Char} {k fuel : Nat} {last : Option Nat} {xs : List Point}

/-! ### Plain nodes -/

namespace Node

/-- Whether the node takes one character. -/
def isSingle : Node → Bool
  | literal _ => true
  | any => true
  | set _ _ => true
  | _ => false

/-- Whether the node takes a character, if it takes one. -/
def admits (f : Flags) : Node → Char → Bool
  | literal n, c => (Member.code n).contains f c
  | any, c => f.dotAll || c != '\n'
  | set negated ms, c => classContains f negated ms c
  | _, _ => false

/-- Whether the node is plain. -/
def isPlain : Node → Bool
  | empty => true
  | literal _ => true
  | any => true
  | set _ _ => true
  | anchor _ => true
  | seq a b => a.isPlain && b.isPlain
  | alt a b => a.isPlain && b.isPlain
  | repeated .greedy _ _ body => body.isSingle
  | _ => false

end Node

/-- Whether a plain node spans a text between what stands before it, nearest first, and what stands
behind it. -/
def Spans (f : Flags) : Node → List Char → List Char → List Char → Prop
  | .empty, _, w, _ => w = []
  | .anchor a, before, w, rest => w = [] ∧ (Point.mk 0 before rest []).holds f a = true
  | .seq a b, before, w, rest => ∃ u v, w = u ++ v ∧ Spans f a before u (v ++ rest) ∧
      Spans f b (u.reverse ++ before) v rest
  | .alt a b, before, w, rest => Spans f a before w rest ∨ Spans f b before w rest
  | .repeated _ least most body, _, w, _ => least ≤ w.length ∧
      (∀ n ∈ most, w.length ≤ max least n) ∧ ∀ c ∈ w, body.admits f c = true
  | n, _, w, _ => ∃ c, w = [c] ∧ n.admits f c = true

/-! ### Points ahead -/

namespace Point

/-- The point behind the next characters. -/
def past (x : Point) (w rest : List Char) : Point :=
  ⟨x.position + w.length, w.reverse ++ x.before, rest, x.groups⟩

/-- Whether a point lies ahead of another one, with the same groups. -/
def Ahead (x y : Point) : Prop :=
  ∃ w rest, x.after = w ++ rest ∧ y = x.past w rest

theorem past_nil (x : Point) : x.past [] x.after = x := rfl

theorem past_past (x : Point) (u v rest : List Char) :
    (x.past u (v ++ rest)).past v rest = x.past (u ++ v) rest := by
  simp only [past, List.length_append, List.reverse_append, List.append_assoc, Nat.add_assoc]

/-- Of the points ahead of one point those that count as the same are the same. -/
theorem Ahead.eq_of_same (hy : x.Ahead y) (hz : x.Ahead z) (h : y.same z = true) : y = z := by
  obtain ⟨u, r, hu, rfl⟩ := hy
  obtain ⟨v, t, hv, rfl⟩ := hz
  have hlength : u.length = v.length := by
    simp only [same, past, Bool.and_eq_true, beq_iff_eq] at h
    exact Nat.add_left_cancel h.1
  obtain ⟨rfl, rfl⟩ := List.append_inj (hu.symm.trans hv) hlength
  rfl

theorem mem_take : y ∈ x.take p ↔ ∃ c rest, x.after = c :: rest ∧ p c = true ∧
    y = x.past [c] rest := by
  rw [take]
  cases hx : x.after with
  | nil => simp
  | cons c rest =>
      by_cases hc : p c = true
      · simp [hc, past]
      · simp [hc]

end Point

/-- Leaving out points that count as the same loses none of the points ahead. -/
theorem mem_distinct (h : ∀ z ∈ xs, x.Ahead z) : y ∈ distinct xs ↔ y ∈ xs := by
  induction xs with
  | nil => exact Iff.rfl
  | cons z xs ih =>
      rw [List.forall_mem_cons] at h
      rw [distinct, List.mem_cons, List.mem_filter, ih h.2, List.mem_cons]
      constructor
      · exact Or.imp_right And.left
      · rintro (rfl | hy)
        · exact Or.inl rfl
        · by_cases hsame : z.same y = true
          · exact Or.inl (h.1.eq_of_same (h.2 y hy) hsame).symm
          · exact Or.inr ⟨hy, by simpa using hsame⟩

/-! ### Repetitions of single characters -/

theorem take_cases (p : Char → Bool) (x : Point) :
    x.take p = [] ∨ ∃ z, x.take p = [z] ∧ z.position = x.position + 1 := by
  rw [Point.take]
  split
  next c cs _ =>
    by_cases hc : p c = true
    · exact Or.inr ⟨_, if_pos hc, rfl⟩
    · exact Or.inl (if_neg hc)
  next => exact Or.inl rfl

/-- Whether a number of characters of a kind lie between two points. -/
def Run (p : Char → Bool) : Nat → Point → Point → Prop
  | 0, x, y => y = x
  | k + 1, x, y => ∃ z ∈ x.take p, Run p k z y

theorem run_add {m : Nat} : Run p (k + m) x y ↔ ∃ z, Run p k x z ∧ Run p m z y := by
  induction k generalizing x with
  | zero => simp [Run]
  | succ k ih =>
      rw [Nat.add_right_comm]
      simp only [Run, ih]
      constructor
      · rintro ⟨u, hu, z, hz, hy⟩
        exact ⟨z, ⟨u, hu, hz⟩, hy⟩
      · rintro ⟨z, ⟨u, hu, hz⟩, hy⟩
        exact ⟨u, hu, z, hz, hy⟩

theorem run_iff : Run p k x y ↔ ∃ w rest, x.after = w ++ rest ∧ y = x.past w rest ∧
    w.length = k ∧ ∀ c ∈ w, p c = true := by
  induction k generalizing x with
  | zero =>
      constructor
      · rintro rfl
        exact ⟨[], y.after, rfl, y.past_nil, rfl, List.forall_mem_nil _⟩
      · rintro ⟨w, rest, hx, rfl, hw, -⟩
        obtain rfl := List.length_eq_zero_iff.mp hw
        obtain rfl : x.after = rest := hx
        exact x.past_nil
  | succ k ih =>
      simp only [Run, Point.mem_take, ih]
      constructor
      · rintro ⟨z, ⟨c, rest, hx, hc, rfl⟩, w, tail, hw, rfl, hlength, hall⟩
        obtain rfl : rest = w ++ tail := hw
        exact ⟨c :: w, tail, hx, x.past_past [c] w tail, congrArg (· + 1) hlength,
          List.forall_mem_cons.mpr ⟨hc, hall⟩⟩
      · rintro ⟨w, tail, hx, rfl, hlength, hall⟩
        obtain ⟨c, w, rfl⟩ := List.exists_cons_of_length_eq_add_one hlength
        obtain ⟨hc, hall⟩ := List.forall_mem_cons.mp hall
        exact ⟨_, ⟨c, w ++ tail, hx, hc, rfl⟩, w, tail, rfl, (x.past_past [c] w tail).symm,
          Nat.succ.inj hlength, hall⟩

theorem times_nil (body : Point → List Point) (k : Nat) : times body k [] = [] := by
  cases k <;> rfl

/-- A number of iterations leads to one point at most, the one behind so many characters. -/
theorem times_take (p : Char → Bool) (k : Nat) (x : Point) :
    (times (·.take p) k [x]).length ≤ 1 ∧ ∀ y, y ∈ times (·.take p) k [x] ↔ Run p k x y := by
  induction k generalizing x with
  | zero => exact ⟨Nat.le_refl 1, fun y => List.mem_singleton⟩
  | succ k ih =>
      simp only [times, List.flatMap_singleton, Run]
      obtain hnil | ⟨z, hz, -⟩ := take_cases p x
      · simp [hnil, times_nil]
      · simpa [hz] using ih z

/-- A greedy repetition leads to all points behind characters of the kind, as far as the fuel
lasts. -/
theorem mem_greedily (hlast : last ≠ some x.position) :
    y ∈ greedily (·.take p) fuel last x ↔ ∃ k ≤ fuel, Run p k x y := by
  induction fuel generalizing x last with
  | zero => simp [greedily, Run]
  | succ fuel ih =>
      have hrun : (∃ k ≤ fuel + 1, Run p k x y) ↔
          y = x ∨ ∃ z ∈ x.take p, ∃ k ≤ fuel, Run p k z y := by
        constructor
        · rintro ⟨k, hk, hy⟩
          cases k with
          | zero => exact Or.inl hy
          | succ k =>
              obtain ⟨z, hz, hy⟩ := hy
              exact Or.inr ⟨z, hz, k, Nat.le_of_succ_le_succ hk, hy⟩
        · rintro (hy | ⟨z, hz, k, hk, hy⟩)
          · exact ⟨0, Nat.zero_le _, hy⟩
          · exact ⟨k + 1, Nat.succ_le_succ hk, z, hz, hy⟩
      rw [hrun, greedily, if_neg hlast]
      obtain hnil | ⟨z, hz, hposition⟩ := take_cases p x
      · simp [hnil]
      · have hmoved : some x.position ≠ some z.position := by
          rw [hposition]
          simp
        simp only [hz, List.length_singleton, Nat.le_refl, if_true, List.flatMap_singleton,
          List.mem_append, List.mem_singleton, ih hmoved, exists_eq_left]
        exact or_comm

/-- A greedy repetition of one character leads to the points behind as many characters as the bounds
allow. -/
theorem mem_iterate {least : Nat} {most : Option Nat} :
    y ∈ iterate (·.take p) .greedy least most x ↔ ∃ k, least ≤ k ∧ (∀ n ∈ most, k ≤ max least n) ∧
      Run p k x y := by
  obtain ⟨hone, hstart⟩ := times_take p least x
  simp only [iterate, if_pos hone, List.mem_flatMap, hstart,
    mem_greedily (Option.some_ne_none _).symm]
  constructor
  · rintro ⟨z, hz, k, hk, hy⟩
    refine ⟨least + k, Nat.le_add_right .., ?_, run_add.mpr ⟨z, hz, hy⟩⟩
    rintro n rfl
    dsimp only at hk
    omega
  · rintro ⟨k, hk, hmost, hy⟩
    obtain ⟨more, rfl⟩ := Nat.exists_eq_add_of_le hk
    obtain ⟨z, hz, hmore⟩ := run_add.mp hy
    refine ⟨z, hz, more, ?_, hmore⟩
    cases most with
    | some n =>
        have := hmost n rfl
        dsimp only
        omega
    | none =>
        -- there are no more iterations than characters
        obtain ⟨w, rest, hx, -, hw, -⟩ := run_iff.mp hy
        have := congrArg List.length hx
        rw [List.length_append] at this
        dsimp only
        omega

/-! ### Plain patterns -/

theorem ends_single (h : n.isSingle = true) (x : Point) : ends ws f n x = x.take (n.admits f) := by
  cases n <;> first | rfl | cases h

theorem spans_single (h : n.isSingle = true) :
    Spans f n before w rest ↔ ∃ c, w = [c] ∧ n.admits f c = true := by
  cases n <;> first | exact Iff.rfl | cases h

/-- Whether a node spans the text between two points. -/
def Reaches (f : Flags) (n : Node) (x y : Point) : Prop :=
  ∃ w rest, x.after = w ++ rest ∧ y = x.past w rest ∧ Spans f n x.before w rest

theorem Reaches.ahead (h : Reaches f n x y) : x.Ahead y := by
  obtain ⟨w, rest, hx, hy, -⟩ := h
  exact ⟨w, rest, hx, hy⟩

theorem reaches_stay (h : ∀ w rest, Spans f n x.before w rest → w = []) :
    Reaches f n x y ↔ y = x ∧ Spans f n x.before [] x.after := by
  constructor
  · rintro ⟨w, rest, hx, rfl, hspan⟩
    obtain rfl := h w rest hspan
    obtain rfl : x.after = rest := hx
    exact ⟨x.past_nil, hspan⟩
  · rintro ⟨rfl, hspan⟩
    exact ⟨[], y.after, rfl, y.past_nil.symm, hspan⟩

theorem reaches_single (h : n.isSingle = true) :
    Reaches f n x y ↔ y ∈ x.take (n.admits f) := by
  simp only [Reaches, Point.mem_take, spans_single h]
  constructor
  · rintro ⟨w, rest, hx, rfl, c, rfl, hc⟩
    exact ⟨c, rest, hx, hc, rfl⟩
  · rintro ⟨c, rest, hx, hc, rfl⟩
    exact ⟨[c], rest, hx, rfl, c, rfl, hc⟩

theorem reaches_seq {a b : Node} :
    Reaches f (.seq a b) x y ↔ ∃ z, Reaches f a x z ∧ Reaches f b z y := by
  constructor
  · rintro ⟨w, rest, hx, rfl, u, v, rfl, hu, hv⟩
    rw [List.append_assoc] at hx
    exact ⟨x.past u (v ++ rest), ⟨u, v ++ rest, hx, rfl, hu⟩, v, rest, rfl,
      (x.past_past u v rest).symm, hv⟩
  · rintro ⟨z, ⟨u, r, hx, rfl, hu⟩, v, rest, hr, rfl, hv⟩
    obtain rfl : r = v ++ rest := hr
    refine ⟨u ++ v, rest, ?_, x.past_past u v rest, u, v, rfl, hu, hv⟩
    rw [hx, List.append_assoc]

theorem reaches_alt {a b : Node} :
    Reaches f (.alt a b) x y ↔ Reaches f a x y ∨ Reaches f b x y := by
  simp only [Reaches, Spans, and_or_left, exists_or]

theorem reaches_repeated {body : Node} {least : Nat} {most : Option Nat} :
    Reaches f (.repeated .greedy least most body) x y ↔
      ∃ k, least ≤ k ∧ (∀ n ∈ most, k ≤ max least n) ∧ Run (body.admits f) k x y := by
  simp only [Reaches, Spans, run_iff]
  constructor
  · rintro ⟨w, rest, hx, hy, hleast, hmost, hall⟩
    exact ⟨w.length, hleast, hmost, w, rest, hx, hy, rfl, hall⟩
  · rintro ⟨k, hleast, hmost, w, rest, hx, hy, rfl, hall⟩
    exact ⟨w, rest, hx, hy, hleast, hmost, hall⟩

/-- A plain node leads just to the points to which it spans. -/
theorem mem_ends (h : n.isPlain = true) : y ∈ ends ws f n x ↔ Reaches f n x y := by
  induction n generalizing x y with
  | literal code => exact (reaches_single (n := .literal code) rfl).symm
  | any => exact (reaches_single (n := .any) rfl).symm
  | set negated ms => exact (reaches_single (n := .set negated ms) rfl).symm
  | empty =>
      rw [reaches_stay (n := .empty) fun _ _ hspan => hspan, ends, List.mem_singleton]
      exact (and_iff_left rfl).symm
  | anchor a =>
      rw [reaches_stay (n := .anchor a) fun _ _ hspan => hspan.1, ends]
      by_cases ha : x.holds f a = true
      · rw [if_pos ha, List.mem_singleton]
        exact (and_iff_left ⟨rfl, ha⟩).symm
      · rw [if_neg ha]
        exact iff_of_false List.not_mem_nil fun hspan => ha hspan.2.2
  | seq a b iha ihb =>
      obtain ⟨ha, hb⟩ := (Bool.and_eq_true _ _).mp h
      have hmem (y : Point) : y ∈ (ends ws f a x).flatMap (ends ws f b) ↔
          Reaches f (.seq a b) x y := by
        simp only [List.mem_flatMap, iha ha, ihb hb, reaches_seq]
      rw [ends]
      split
      · exact hmem y
      · rw [mem_distinct fun z hz => ((hmem z).mp hz).ahead]
        exact hmem y
  | alt a b iha ihb =>
      obtain ⟨ha, hb⟩ := (Bool.and_eq_true _ _).mp h
      have hmem (y : Point) : y ∈ ends ws f a x ++ ends ws f b x ↔ Reaches f (.alt a b) x y := by
        rw [List.mem_append, iha ha, ihb hb, reaches_alt]
      rw [ends, mem_distinct fun z hz => ((hmem z).mp hz).ahead]
      exact hmem y
  | repeated kind least most body ih =>
      cases kind with
      | greedy =>
          have hbody : ends ws f body = (·.take (body.admits f)) := funext (ends_single h)
          rw [ends, hbody, mem_iterate, reaches_repeated]
      | reluctant => cases h
      | possessive => cases h
  | group => cases h
  | reference => cases h
  | look => cases h
  | atomic => cases h
  | conditional => cases h

theorem foundFrom_iff {p : Pattern} (h : p.node.isPlain = true) (before after : List Char)
    (position : Nat) : foundFrom p before position after = true ↔ ∃ front w rest,
      after = front ++ w ++ rest ∧ Spans p.flags p.node (front.reverse ++ before) w rest := by
  have hhere (before after : List Char) (position : Nat) :
      (!(ends p.widths p.flags p.node ⟨position, before, after, []⟩).isEmpty) = true ↔
        ∃ w rest, after = w ++ rest ∧ Spans p.flags p.node before w rest := by
    rw [Bool.not_eq_true', List.isEmpty_eq_false_iff_exists_mem]
    simp only [mem_ends h, Reaches]
    constructor
    · rintro ⟨y, w, rest, hafter, -, hspan⟩
      exact ⟨w, rest, hafter, hspan⟩
    · rintro ⟨w, rest, hafter, hspan⟩
      exact ⟨_, w, rest, hafter, rfl, hspan⟩
  induction after generalizing before position with
  | nil =>
      rw [foundFrom, Bool.or_false, hhere]
      constructor
      · rintro ⟨w, rest, hafter, hspan⟩
        exact ⟨[], w, rest, hafter, hspan⟩
      · rintro ⟨front, w, rest, hafter, hspan⟩
        obtain rfl : front = [] := by simp_all
        exact ⟨w, rest, hafter, hspan⟩
  | cons c cs ih =>
      rw [foundFrom, Bool.or_eq_true]
      refine (or_congr (hhere _ _ _) (ih (c :: before) (position + 1))).trans ?_
      constructor
      · rintro (⟨w, rest, hafter, hspan⟩ | ⟨front, w, rest, rfl, hspan⟩)
        · exact ⟨[], w, rest, hafter, hspan⟩
        · rw [← List.singleton_append, ← List.append_assoc, ← List.reverse_cons] at hspan
          exact ⟨c :: front, w, rest, rfl, hspan⟩
      · rintro ⟨front, w, rest, hafter, hspan⟩
        cases front with
        | nil => exact Or.inl ⟨w, rest, hafter, hspan⟩
        | cons d front =>
            obtain ⟨rfl, hcs⟩ := List.cons.inj hafter
            rw [List.reverse_cons, List.append_assoc, List.singleton_append] at hspan
            exact Or.inr ⟨front, w, rest, hcs, hspan⟩

/-- A plain pattern occurs in a text just if it spans a part of it. -/
theorem occurs_iff {p : Pattern} (h : p.node.isPlain = true) (s : String) : p.occurs s = true ↔
    ∃ front w rest, s.toList = front ++ w ++ rest ∧ Spans p.flags p.node front.reverse w rest := by
  rw [occurs, foundFrom_iff h]
  simp only [List.append_nil]

end TableAudit.Pattern
