import TableAudit.Number.Basic

/-!
# Agendas

An agenda keeps what is due at later times in a binary heap: no entry is due before the one at
its parent's place, so the first one is due earliest. An entry is added at the end and moves up
past later ones; when the first is taken, the last takes its place, moves down to the end of the
path of earlier children, and up again from there.
-/

namespace TableAudit.Rehearsal

open TableAudit.Number (Binary64)

/-- Something that is due at a time. -/
structure Due (α : Type) where
  time : Binary64
  what : α
deriving Repr

/-- A binary heap of what is due. -/
abbrev Agenda (α : Type) := Array (Due α)

namespace Agenda

variable {α : Type}

/-- Whether an entry is due before another. -/
def before (a b : Due α) : Bool :=
  a.time.compare? b.time == some .lt

/-- Put an entry into a place, or rather where it belongs on the way up from there. -/
def moveUp (entry : Due α) : Nat → Nat → Agenda α → Agenda α
  | 0, place, heap => heap.setIfInBounds place entry
  | fuel + 1, place, heap =>
    if place = 0 then heap.setIfInBounds 0 entry
    else
      let parent := (place - 1) / 2
      match heap[parent]? with
      | none => heap.setIfInBounds place entry
      | some p =>
        if before entry p then moveUp entry fuel parent (heap.setIfInBounds place p)
        else heap.setIfInBounds place entry

/-- The place of the earlier child, the right one if neither is earlier. -/
def childOf? (heap : Agenda α) (place : Nat) : Option Nat :=
  let left := 2 * place + 1
  match heap[left]?, heap[left + 1]? with
  | none, _ => none
  | some _, none => some left
  | some a, some b => some (if before a b then left else left + 1)

/-- Put an entry into a place after moving the earlier children up. -/
def moveDown (entry : Due α) : Nat → Nat → Agenda α → Agenda α
  | 0, place, heap => moveUp entry heap.size place heap
  | fuel + 1, place, heap =>
    match childOf? heap place with
    | none => moveUp entry heap.size place heap
    | some child =>
      match heap[child]? with
      | none => heap
      | some c => moveDown entry fuel child (heap.setIfInBounds place c)

/-- Add an entry. -/
def add (entry : Due α) (heap : Agenda α) : Agenda α :=
  moveUp entry (heap.size + 1) heap.size (heap.push entry)

/-- The agenda without its first entry. -/
def withoutFirst (heap : Agenda α) : Agenda α :=
  match heap.back? with
  | none => heap
  | some last =>
    let rest := heap.pop
    if rest.isEmpty then rest else moveDown last rest.size 0 rest

/-- The first entry, and the agenda without it. -/
def takeFirst? (heap : Agenda α) : Option (Due α × Agenda α) :=
  (heap[0]?).map fun d => (d, withoutFirst heap)

/-- Drop entries from the front while they do not count. -/
def dropWhile (counts : α → Bool) : Nat → Agenda α → Agenda α
  | 0, heap => heap
  | fuel + 1, heap =>
    match heap.takeFirst? with
    | none => heap
    | some (d, rest) => if counts d.what then heap else dropWhile counts fuel rest

/-- Take the entries that are due before a time. -/
def takeBefore (time : Binary64) : Nat → Agenda α → List α × Agenda α
  | 0, heap => ([], heap)
  | fuel + 1, heap =>
    match heap.takeFirst? with
    | none => ([], heap)
    | some (d, rest) =>
      if d.time.compare? time == some .lt then
        let (more, heap) := takeBefore time fuel rest
        (d.what :: more, heap)
      else ([], heap)

end Agenda

end TableAudit.Rehearsal
