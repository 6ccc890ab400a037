import TableAudit.Pattern.Reading

/-!
# Matching patterns

A node leads from a point of the text to the list of all points where a match may end, in the
order in which they are tried. Points that are reached twice count once, so the list stays short.
A greedy repetition lists the longest ways first, a reluctant one the shortest; an atomic group, a
possessive repetition and an assertion keep the first way only. A repetition stops after an
iteration that took no character.
-/

namespace TableAudit.Pattern

/-- A place in a text: the characters before it, nearest first, those after it, and the texts of
the groups matched so far, latest first. -/
structure Point where
  position : Nat
  before : List Char
  after : List Char
  groups : List (Nat × List Char)

namespace Point

/-- The start of a text. -/
def start (s : List Char) : Point := ⟨0, [], s, []⟩

/-- Take one character of a kind. -/
def take (p : Char → Bool) (x : Point) : List Point :=
  match x.after with
  | c :: cs => if p c then [⟨x.position + 1, c :: x.before, cs, x.groups⟩] else []
  | [] => []

/-- Take the characters of a text. -/
def takeText (same : Char → Char → Bool) : List Char → Point → List Point
  | [], x => [x]
  | c :: cs, x => (x.take (same c)).flatMap (takeText same cs)

/-- Go back a number of characters. -/
def back? : Nat → Point → Option Point
  | 0, x => some x
  | n + 1, x =>
    match x.before with
    | c :: cs => back? n ⟨x.position - 1, cs, c :: x.after, x.groups⟩
    | [] => none

/-- Whether two points are the same for all that may follow. -/
def same (x y : Point) : Bool :=
  x.position == y.position && x.groups == y.groups

/-- The text between an earlier point and this one. -/
def since (x earlier : Point) : List Char :=
  (x.before.take (x.position - earlier.position)).reverse

/-- Enter the text of a group. -/
def capture (index : Nat) (earlier x : Point) : Point :=
  { x with groups := (index, x.since earlier) :: x.groups.filter (·.1 != index) }

/-- Whether the characters on both sides differ in being word characters. In an empty text no
place is a boundary or the opposite. -/
def atBoundary (ascii : Bool) (x : Point) : Bool :=
  let word (cs : List Char) := (cs.head?.map (Category.word.contains ascii)).getD false
  word x.before != word x.after

/-- Whether an anchor holds. -/
def holds (f : Flags) (a : Anchor) (x : Point) : Bool :=
  let empty := x.before.isEmpty && x.after.isEmpty
  match a with
  | .textStart => x.before.isEmpty
  | .lineStart => x.before.isEmpty || (f.multiline && x.before.head? == some '\n')
  | .textEnd => x.after.isEmpty
  | .lineEnd => x.after.isEmpty || x.after == ['\n'] || (f.multiline && x.after.head? == some '\n')
  | .boundary => !empty && x.atBoundary f.ascii
  | .noBoundary => !empty && !x.atBoundary f.ascii

end Point

/-- Keep the first of the points that are the same. -/
def distinct : List Point → List Point
  | [] => []
  | x :: xs => x :: (distinct xs).filter fun y => !x.same y

/-- Lower case, of ASCII letters alone on request. -/
def fold (ascii : Bool) (c : Char) : Char :=
  if ascii then c.toLower else Text.toLower c

/-- Equality of characters under the flags. -/
def sameChar (f : Flags) (c d : Char) : Bool :=
  if !f.ignoreCase then c == d
  else if f.ascii then c.toLower == d.toLower
  else Text.sameLetter c d

/-- The characters that differ from a character in case only, and the character. -/
def caseClass (f : Flags) (c : Char) : List Nat :=
  if !f.ignoreCase then [c.toNat]
  else if f.ascii then [c.toNat, c.toLower.toNat, c.toUpper.toNat]
  else
    let low := (Text.toLower c).toNat
    let lows := low :: (Text.caseVariants.lookup low).getD []
    lows ++ lows.flatMap fun n =>
      (if n < 128 then [(Char.ofNat n).toUpper.toNat] else []) ++
        Text.lowerRuns.toList.filterMap fun r =>
          let m := (n : Int) - r.2.2.2
          if r.1 ≤ m && m ≤ r.2.1 && (m.toNat - r.1) % r.2.2.1 == 0 then some m.toNat else none

/-- Whether a member of a class holds a character. -/
def Member.contains (f : Flags) (c : Char) : Member → Bool
  | .code n => (caseClass f c).contains n
  | .range a b => (caseClass f c).any fun n => a ≤ n && n ≤ b
  | .category k negated => (k.contains f.ascii (if f.ignoreCase then fold f.ascii c else c)) != negated

/-- Whether a class holds a character. -/
def classContains (f : Flags) (negated : Bool) (ms : List Member) (c : Char) : Bool :=
  ms.any (·.contains f c) != negated

/-- Further greedy iterations, longest first. `last` is where the last iteration began. -/
def greedily (body : Point → List Point) : Nat → Option Nat → Point → List Point
  | 0, _, x => [x]
  | fuel + 1, last, x =>
    if last = some x.position then [x]
    else
      let nexts := body x
      let ends := nexts.flatMap (greedily body fuel (some x.position)) ++ [x]
      if nexts.length ≤ 1 then ends else distinct ends

/-- Further reluctant iterations, shortest first. -/
def reluctantly (body : Point → List Point) : Nat → Option Nat → Point → List Point
  | 0, _, x => [x]
  | fuel + 1, last, x =>
    if last = some x.position then [x]
    else
      let nexts := body x
      let ends := x :: nexts.flatMap (reluctantly body fuel (some x.position))
      if nexts.length ≤ 1 then ends else distinct ends

/-- Exactly `n` iterations. -/
def times (body : Point → List Point) : Nat → List Point → List Point
  | 0, xs => xs
  | _ + 1, [] => []
  | n + 1, xs =>
    let next := xs.flatMap body
    times body n (if next.length ≤ 1 then next else distinct next)

/-- All ends of a repetition. Without an upper bound no more iterations are possible than twice
the characters left, since of two in a row one takes a character. -/
def iterate (body : Point → List Point) (kind : Repetition) (least : Nat) (most : Option Nat)
    (x : Point) : List Point :=
  let fuel := match most with
    | some n => n - least
    | none => 2 * x.after.length + 2
  let starts := times body least [x]
  let ends := match kind with
    | .reluctant => starts.flatMap (reluctantly body fuel none)
    | _ => starts.flatMap (greedily body fuel none)
  match kind with
  | .possessive => ends.take 1
  | _ => if starts.length ≤ 1 then ends else distinct ends

/-- All points where a match of a node that begins at a point may end. -/
def ends (widths : List (Option Width)) (f : Flags) : Node → Point → List Point
  | .empty, x => [x]
  | .literal n, x => x.take fun c => (Member.code n).contains f c
  | .any, x => x.take fun c => f.dotAll || c != '\n'
  | .set negated ms, x => x.take (classContains f negated ms)
  | .anchor a, x => if x.holds f a then [x] else []
  | .seq a b, x =>
    let middle := ends widths f a x
    let r := middle.flatMap (ends widths f b)
    if middle.length ≤ 1 then r else distinct r
  | .alt a b, x => distinct (ends widths f a x ++ ends widths f b x)
  | .repeated kind least most body, x => iterate (ends widths f body) kind least most x
  | .group index set clear body, x =>
    let found := ends widths (f.within set clear) body x
    match index with
    | none => found
    | some i => found.map (Point.capture i x)
  | .reference i, x =>
    match x.groups.lookup i with
    | none => []
    | some s =>
      x.takeText (fun c d => if f.ignoreCase then fold f.ascii c == fold f.ascii d else c == d) s
  | .look true negated body, x =>
    match ends widths f body x, negated with
    | [], true => [x]
    | y :: _, false => [{ x with groups := y.groups }]
    | _, _ => []
  | .look false negated body, x =>
    let found := match (x.back? (((body.width widths).fixed?).getD 0)) with
      | none => []
      | some y => ends widths f body y
    match found, negated with
    | [], true => [x]
    | y :: _, false => [{ x with groups := y.groups }]
    | _, _ => []
  | .atomic body, x => (ends widths f body x).take 1
  | .conditional i yes no, x =>
    if (x.groups.lookup i).isSome then ends widths f yes x else ends widths f no x

/-- Whether a match begins at some point from `x` on. -/
def foundFrom (p : Pattern) (before : List Char) : Nat → List Char → Bool
  | n, after =>
    (!(ends p.widths p.flags p.node ⟨n, before, after, []⟩).isEmpty) ||
      match after with
      | [] => false
      | c :: cs => foundFrom p (c :: before) (n + 1) cs
termination_by structural _ after => after

/-- Whether the pattern matches somewhere in a text. -/
def occurs (p : Pattern) (s : String) : Bool :=
  foundFrom p [] 0 s.toList

end TableAudit.Pattern
