import TableAudit.Text.Character
import TableAudit.Text.Basic
import TableAudit.Text.LowerCase

/-!
# Patterns

Regular expressions with classes, greedy, lazy and possessive repetition, groups with
back-references, assertions, conditions on groups and inline flags. Flags are kept where they are
set; matching carries the flags in force down the pattern.
-/

namespace TableAudit.Pattern

/-- Inline flags: the `i`, `m`, `s`, `x`, `a` and `u` letters, and the global `t` without effect
on matching. -/
structure Flags where
  ignoreCase : Bool
  multiline : Bool
  dotAll : Bool
  verbose : Bool
  ascii : Bool
  unicode : Bool
  template : Bool
deriving DecidableEq, Repr, Inhabited

namespace Flags

/-- No flag. -/
def none : Flags := ⟨false, false, false, false, false, false, false⟩

/-- Flags of either set. -/
def union (a b : Flags) : Flags :=
  ⟨a.ignoreCase || b.ignoreCase, a.multiline || b.multiline, a.dotAll || b.dotAll,
    a.verbose || b.verbose, a.ascii || b.ascii, a.unicode || b.unicode, a.template || b.template⟩

/-- Flags of both sets. -/
def inter (a b : Flags) : Flags :=
  ⟨a.ignoreCase && b.ignoreCase, a.multiline && b.multiline, a.dotAll && b.dotAll,
    a.verbose && b.verbose, a.ascii && b.ascii, a.unicode && b.unicode, a.template && b.template⟩

/-- Flags of the first set that are not in the second. -/
def diff (a b : Flags) : Flags :=
  a.inter ⟨!b.ignoreCase, !b.multiline, !b.dotAll, !b.verbose, !b.ascii, !b.unicode, !b.template⟩

/-- Whether no flag is set. -/
def isEmpty (a : Flags) : Bool :=
  a == none

/-- The flags inside a group that sets some flags and clears others. The choice of character
data is replaced as a whole. -/
def within (outer set clear : Flags) : Flags :=
  let outer := if set.ascii || set.unicode then { outer with ascii := false, unicode := false }
    else outer
  (outer.union set).diff clear

end Flags

/-- Classes of characters with a letter of their own. -/
inductive Category
  | digit
  | blank
  | word
deriving DecidableEq, Repr

/-- Membership in a class, of ASCII characters alone on request. -/
def Category.contains (ascii : Bool) (k : Category) (c : Char) : Bool :=
  if ascii then
    c.toNat < 128 &&
      match k with
      | digit => c.isDigit
      | blank => c == ' ' || (9 ≤ c.toNat && c.toNat ≤ 13)
      | word => c.isAlphanum || c == '_'
  else
    match k with
    | digit => Text.isDecimalDigit c
    | blank => Text.isBlank c
    | word => Text.isWord c

/-- A member of a bracketed class; code points may be ones that no character has. -/
inductive Member
  | code (n : Nat)
  | range (first last : Nat)
  | category (k : Category) (negated : Bool)
deriving DecidableEq, Repr

/-- Positions that match without taking a character. -/
inductive Anchor
  | lineStart
  | lineEnd
  | textStart
  | textEnd
  | boundary
  | noBoundary
deriving DecidableEq, Repr

/-- How a repetition chooses its length. -/
inductive Repetition
  | greedy
  | reluctant
  | possessive
deriving DecidableEq, Repr

/-- A regular expression. -/
inductive Node
  | empty
  | literal (code : Nat)
  | any
  | set (negated : Bool) (members : List Member)
  | anchor (a : Anchor)
  | seq (a b : Node)
  | alt (a b : Node)
  | repeated (kind : Repetition) (least : Nat) (most : Option Nat) (body : Node)
  | group (index : Option Nat) (set clear : Flags) (body : Node)
  | reference (index : Nat)
  | look (ahead negated : Bool) (body : Node)
  | atomic (body : Node)
  | conditional (index : Nat) (yes no : Node)
deriving Repr, Inhabited

namespace Node

/-- Whether the node is a position. -/
def isAnchor : Node → Bool
  | anchor _ => true
  | _ => false

/-- Whether the node is a repetition. -/
def isRepetition : Node → Bool
  | repeated .. => true
  | _ => false

/-- The sequence of a list of nodes. -/
def ofList : List Node → Node
  | [] => empty
  | [n] => n
  | n :: ns => seq n (ofList ns)

/-- The alternative of a list of nodes. -/
def ofBranches : List Node → Node
  | [] => empty
  | [n] => n
  | n :: ns => alt n (ofBranches ns)

end Node

/-- Least and greatest length of the texts that a node matches. -/
structure Width where
  least : Nat
  most : Option Nat
deriving DecidableEq, Repr

namespace Width

/-- Width of one thing after another. -/
def add (a b : Width) : Width :=
  ⟨a.least + b.least, do some ((← a.most) + (← b.most))⟩

/-- Width of one thing or another. -/
def either (a b : Width) : Width :=
  ⟨min a.least b.least, do some (max (← a.most) (← b.most))⟩

/-- Whether all texts have one length. -/
def fixed? (w : Width) : Option Nat :=
  if w.most = some w.least then some w.least else none

end Width

/-- The width of a node, given the widths of the groups that it may refer to. -/
def Node.width (groups : List (Option Width)) : Node → Width
  | .empty => ⟨0, some 0⟩
  | .literal _ => ⟨1, some 1⟩
  | .any => ⟨1, some 1⟩
  | .set _ _ => ⟨1, some 1⟩
  | .anchor _ => ⟨0, some 0⟩
  | .seq a b => (a.width groups).add (b.width groups)
  | .alt a b => (a.width groups).either (b.width groups)
  | .repeated _ least most body =>
    let w := body.width groups
    let most := match w.most, most with
      | some 0, _ => some 0
      | some n, some k => some (n * k)
      | _, some 0 => some 0
      | _, _ => none
    ⟨w.least * least, most⟩
  | .group _ _ _ body => body.width groups
  | .reference n => ((groups[n]?).bind id).getD ⟨0, some 0⟩
  | .look .. => ⟨0, some 0⟩
  | .atomic body => body.width groups
  | .conditional _ yes no => (yes.width groups).either (no.width groups)

end TableAudit.Pattern
