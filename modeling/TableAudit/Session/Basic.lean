import TableAudit.Check.Basic
import TableAudit.Table.Row

/-!
# Sessions

A session keeps what passes over one table share: the rows that were read, and the checks that
were made, by column. Every change of the table invalidates all of it at once. The generation
counts invalidations, so what was begun under an earlier generation can be told apart: it is used
by whoever began it and not kept.
-/

namespace TableAudit

/-- What tells texts and other values apart in the values that a check was made from: a text by
itself, any other value by its literal. -/
inductive Mark
  | text (s : String)
  | other (literal : String)
deriving DecidableEq, Repr

/-- The mark of a value. -/
def Mark.ofValue : Value → Mark
  | .text s => .text s
  | v => .other v.literal

/-- A check that is kept, with what it was made from. The serial number tells checks apart. -/
structure CachedCheck where
  rule : String
  marks : Option (List Mark)
  check : Check
  serial : Nat
deriving Repr

/-- What passes over a table share. -/
structure Session where
  generation : Nat
  rows : Option (List Row)
  checks : List (String × CachedCheck)
  /-- How many checks were made so far. -/
  made : Nat
deriving Repr

namespace Session

/-- Nothing is kept yet. -/
def fresh : Session := ⟨0, none, [], 0⟩

/-- Forget rows and checks. -/
def invalidate (s : Session) : Session :=
  { s with generation := s.generation + 1, rows := none, checks := [] }

/-- Keep rows that were read under a generation, unless it has passed. -/
def keepRows (s : Session) (generation : Nat) (rows : List Row) : Session :=
  if s.generation = generation then { s with rows := some rows } else s

/-- The check that is kept for a column. -/
def check? (s : Session) (columnId : String) : Option CachedCheck :=
  s.checks.lookup columnId

/-- The check that is kept for a column, if it was made from the same rule and the same values. -/
def matching? (s : Session) (columnId rule : String) (marks : Option (List Mark)) :
    Option CachedCheck :=
  (s.check? columnId).filter fun c => c.rule = rule && c.marks = marks

/-- Keep a check that was made under a generation, unless it has passed. -/
def keepCheck (s : Session) (generation : Nat) (columnId : String) (c : CachedCheck) : Session :=
  if s.generation = generation then
    { s with checks := (columnId, c) :: s.checks.filter (·.1 ≠ columnId) }
  else s

/-- A check for a column, and whether it was made anew. -/
structure Obtained where
  cached : CachedCheck
  isNew : Bool
deriving Repr

/-- The check of a column: the one that is kept, or a new one, which is kept. `meanwhile` is what
happens to the session while the check is made. -/
def checkAcross (meanwhile : Session → Session) (s : Session) (columnId rule : String)
    (marks : Option (List Mark)) (make : Except Rule.Refusal Check) :
    Except Rule.Refusal Obtained × Session :=
  match s.matching? columnId rule marks with
  | some c => (.ok ⟨c, false⟩, s)
  | none =>
    let after := meanwhile s
    match make with
    | .error e => (.error e, after)
    | .ok check =>
      let c : CachedCheck := ⟨rule, marks, check, after.made⟩
      (.ok ⟨c, true⟩, { after with made := after.made + 1 }.keepCheck s.generation columnId c)

/-- The check of a column: the one that is kept, or a new one. -/
def checkFor (s : Session) (columnId rule : String) (marks : Option (List Mark))
    (make : Except Rule.Refusal Check) : Except Rule.Refusal Obtained × Session :=
  s.checkAcross id columnId rule marks make

end Session

end TableAudit
