import TableAudit.Pattern.Basic
import TableAudit.Number.Reading
import TableAudit.Text.Quoted
import TableAudit.Text.Search

/-!
# Reading patterns

The reader works on tokens: single characters, and backslashes with the character after them. A
refused pattern comes with its cause and, nearly always, a position. A lone backslash at the end
is refused as soon as the token before it is taken.
-/

namespace TableAudit.Pattern

/-- Why a pattern is refused. -/
inductive Cause
  | escapeAtEnd
  | badEscape (escape : String)
  | incompleteEscape (escape : String)
  | octalTooLarge (escape : String)
  | missingBrace
  | missing (what : String)
  | unterminatedName (terminator : Char)
  | undefinedCharacter (name : String)
  | openGroup
  | groupOfSameLookbehind
  | invalidReference (n : Int)
  | unterminatedSet
  | badRange (first last : String)
  | boundsReversed
  | nothingToRepeat
  | multipleRepeat
  | unexpectedEnd
  | badGroupName (name : String)
  | unknownGroup (name : String)
  | unknownExtension (text : String)
  | unterminatedComment
  | unterminatedGroup
  | tooManyBranches
  | badGroupNumber
  | flagsNotAtStart
  | groupRedefined (name : String) (new old : Nat)
  | unknownFlag
  | badFlags (text : String)
  | unbalanced
  | lookbehindWidth
deriving Repr

/-- The wording of a cause. -/
def Cause.text : Cause → String
  | escapeAtEnd => "bad escape (end of pattern)"
  | badEscape e => "bad escape " ++ e
  | incompleteEscape e => "incomplete escape " ++ e
  | octalTooLarge e => "octal escape value " ++ e ++ " outside of range 0-0o377"
  | missingBrace => "missing \x7b"
  | missing what => "missing " ++ what
  | unterminatedName t => "missing " ++ String.singleton t ++ ", unterminated name"
  | undefinedCharacter n => "undefined character name " ++ Text.quoted n
  | openGroup => "cannot refer to an open group"
  | groupOfSameLookbehind => "cannot refer to group defined in the same lookbehind subpattern"
  | invalidReference n => "invalid group reference " ++ toString n
  | unterminatedSet => "unterminated character set"
  | badRange a b => "bad character range " ++ a ++ "-" ++ b
  | boundsReversed => "min repeat greater than max repeat"
  | nothingToRepeat => "nothing to repeat"
  | multipleRepeat => "multiple repeat"
  | unexpectedEnd => "unexpected end of pattern"
  | badGroupName n => "bad character in group name " ++ Text.quoted n
  | unknownGroup n => "unknown group name " ++ Text.quoted n
  | unknownExtension s => "unknown extension " ++ s
  | unterminatedComment => "missing ), unterminated comment"
  | unterminatedGroup => "missing ), unterminated subpattern"
  | tooManyBranches => "conditional backref with more than two branches"
  | badGroupNumber => "bad group number"
  | flagsNotAtStart => "global flags not at the start of the expression"
  | groupRedefined n new old =>
    "redefinition of group name " ++ Text.quoted n ++ " as group " ++ toString new ++
      "; was group " ++ toString old
  | unknownFlag => "unknown flag"
  | badFlags s => "bad inline flags: " ++ s
  | unbalanced => "unbalanced parenthesis"
  | lookbehindWidth => "look-behind requires fixed-width pattern"

/-- A cause with its position in the pattern. -/
structure Mistake where
  cause : Cause
  position : Option Nat
deriving Repr

/-- The wording of a mistake; line and column are added for a pattern of several lines. -/
def Mistake.text (source : List Char) (m : Mistake) : String :=
  match m.position with
  | none => m.cause.text
  | some p =>
    let (line, column) := Text.lineColumn source p
    let place := if source.contains '\n' then
        " (line " ++ toString line ++ ", column " ++ toString column ++ ")"
      else ""
    m.cause.text ++ " at position " ++ toString p ++ place

/-- Why a pattern cannot be used: a mistake in it, or a number in it over a limit. -/
inductive Refusal
  | mistake (m : Mistake)
  | fault (f : Fault)
deriving Repr

/-- A character, a backslash with a character, or a backslash at the end of the pattern. -/
inductive Token
  | plain (c : Char)
  | escaped (c : Char)
  | dangling
deriving DecidableEq, Repr

namespace Token

/-- How many characters of the pattern the token takes. -/
def size : Token → Nat
  | plain _ => 1
  | escaped _ => 2
  | dangling => 1

/-- The characters of the token. -/
def text : Token → String
  | plain c => String.singleton c
  | escaped c => String.ofList ['\\', c]
  | dangling => "\\"

/-- Cut a pattern into tokens. -/
def scan : List Char → List Token
  | [] => []
  | ['\\'] => [dangling]
  | '\\' :: c :: cs => escaped c :: scan cs
  | c :: cs => plain c :: scan cs

end Token

/-- What the reader knows: the tokens ahead, the groups opened so far with the widths of the
closed ones, group names, the number of groups at the start of a look-behind, the references of
conditions, and the flags set for the whole pattern. -/
structure Reader where
  total : Nat
  tokens : List Token
  widths : List (Option Width)
  names : List (String × Nat)
  lookbehind : Option Nat
  references : List (Nat × Nat)
  flags : Flags

/-- Steps of the reader. -/
abbrev Read := StateT Reader (Except Refusal)

namespace Read

/-- The position of the next token. -/
def position : Read Nat := do
  let r ← get
  return r.total - r.tokens.foldl (fun n t => n + t.size) 0

/-- Refuse at a number of characters before the next token. -/
def failBack {α : Type} (cause : Cause) (back : Nat) : Read α := do
  let p ← position
  throw (.mistake ⟨cause, some (p - back)⟩)

/-- Refuse at a position. -/
def failAt {α : Type} (cause : Cause) (p : Nat) : Read α :=
  throw (.mistake ⟨cause, some p⟩)

/-- The next token. -/
def peek : Read (Option Token) := do
  return (← get).tokens.head?

/-- Put the tokens ahead; a lone backslash may not come next. -/
def setTokens (ts : List Token) : Read Unit := do
  let r ← get
  if ts.head? = some .dangling then throw (.mistake ⟨.escapeAtEnd, some (r.total - 1)⟩)
  else set { r with tokens := ts }

/-- Take the next token. -/
def take : Read (Option Token) := do
  match (← get).tokens with
  | [] => return none
  | t :: ts => do
    setTokens ts
    return some t

/-- Take the next token if it is the given character. -/
def accept (c : Char) : Read Bool := do
  if (← peek) = some (.plain c) then
    let _ ← take
    return true
  else return false

/-- Take up to `n` characters of a kind. -/
def takeWhile (p : Char → Bool) : Nat → Read (List Char)
  | 0 => return []
  | n + 1 => do
    match ← peek with
    | some (.plain c) =>
      if p c then
        let _ ← take
        return c :: (← takeWhile p n)
      else return []
    | _ => return []

/-- Take tokens up to a terminator, which is taken too: the name before it. -/
def takeUntil (terminator : Char) (what : String) : Nat → String → Read String
  | 0, _ => failBack (.missing what) 0
  | fuel + 1, got => do
    match ← take with
    | none =>
      if got.isEmpty then failBack (.missing what) 0
      else failBack (.unterminatedName terminator) got.length
    | some t =>
      if t = .plain terminator then
        if got.isEmpty then failBack (.missing what) 1 else return got
      else takeUntil terminator what fuel (got ++ t.text)

/-- A name up to a terminator. -/
def name (terminator : Char) (what : String) : Read String := do
  takeUntil terminator what ((← get).tokens.length + 1) ""

end Read

open Read

/-- The value of digits in a base up to 16. -/
def baseValue (base : Nat) (ds : List Char) : Nat :=
  ds.foldl (fun n c =>
    let d := if c.isDigit then c.toNat - 48 else c.toLower.toNat - 87
    base * n + d) 0

/-- A hexadecimal digit. -/
def isHexDigit (c : Char) : Bool :=
  c.isDigit || ('a' ≤ c && c ≤ 'f') || ('A' ≤ c && c ≤ 'F')

/-- An octal digit. -/
def isOctalDigit (c : Char) : Bool :=
  '0' ≤ c && c ≤ '7'

/-- Whether a text can name a group. -/
def isName (s : String) : Bool :=
  match s.toList with
  | [] => false
  | c :: cs => Text.isWord c && !Text.isDecimalDigit c && cs.all Text.isWord

/-- The characters that a backslash and a letter stand for everywhere. -/
def letterEscape? : Char → Option Nat
  | 'a' => some 7
  | 'f' => some 12
  | 'n' => some 10
  | 'r' => some 13
  | 't' => some 9
  | 'v' => some 11
  | '\\' => some 92
  | _ => none

/-- The class that a backslash and a letter stand for. -/
def categoryEscape? : Char → Option Member
  | 'd' => some (.category .digit false)
  | 'D' => some (.category .digit true)
  | 's' => some (.category .blank false)
  | 'S' => some (.category .blank true)
  | 'w' => some (.category .word false)
  | 'W' => some (.category .word true)
  | _ => none

/-- The position that a backslash and a letter stand for. -/
def anchorEscape? : Char → Option Anchor
  | 'A' => some .textStart
  | 'Z' => some .textEnd
  | 'b' => some .boundary
  | 'B' => some .noBoundary
  | _ => none

/-- A code point after `x`, `u` or `U`: exactly so many hexadecimal digits. -/
def hexEscape (letter : Char) (count : Nat) : Read Nat := do
  let ds ← takeWhile isHexDigit count
  let escape := String.ofList ('\\' :: letter :: ds)
  if ds.length ≠ count then failBack (.incompleteEscape escape) escape.length
  else
    let n := baseValue 16 ds
    if 0x110000 ≤ n then failBack (.badEscape escape) escape.length else return n

/-- A code point by its name; no names are known. -/
def namedEscape : Read Nat := do
  if ← accept '\x7b' then
    let n ← name '\x7d' "character name"
    failBack (.undefinedCharacter n) (n.length + 4)
  else failBack .missingBrace 0

/-- A code point in octal digits, the first of which is given. -/
def octalEscape (first : Char) : Read Nat := do
  let ds ← takeWhile isOctalDigit 2
  return baseValue 8 (first :: ds)

/-- Whether a letter after a backslash asks for a code point; if so, that. -/
def codeEscape? (c : Char) : Read (Option Nat) := do
  match c with
  | 'x' => return some (← hexEscape c 2)
  | 'u' => return some (← hexEscape c 4)
  | 'U' => return some (← hexEscape c 8)
  | 'N' => return some (← namedEscape)
  | _ => return none

/-- A backslash with a character that has no meaning of its own: the character, unless it is a
letter. -/
def otherEscape (c : Char) : Read Nat := do
  if c.isAlpha || c.isDigit then failBack (.badEscape (String.ofList ['\\', c])) 2
  else return c.toNat

/-- The member of a class that an escape stands for. -/
def classEscape (c : Char) : Read Member := do
  match letterEscape? c, categoryEscape? c with
  | some n, _ => return .code n
  | none, some m => return m
  | none, none =>
    if c = 'b' then return .code 8
    match ← codeEscape? c with
    | some n => return .code n
    | none =>
      if isOctalDigit c then
        let ds ← takeWhile isOctalDigit 2
        let escape := String.ofList ('\\' :: c :: ds)
        let n := baseValue 8 (c :: ds)
        if 0o377 < n then failBack (.octalTooLarge escape) escape.length
        else return .code n
      else return .code (← otherEscape c)

/-- Refuse a reference to a group that a look-behind may not refer to. -/
def checkLookbehind (group : Nat) : Read Unit := do
  let r ← get
  match r.lookbehind with
  | none => return ()
  | some opened =>
    if ((r.widths[group]?).bind id).isNone then failBack .openGroup 0
    else if opened ≤ group then failBack .groupOfSameLookbehind 0
    else return ()

/-- A reference to a group by number, written with the given digits. -/
def numberedReference (ds : List Char) : Read Node := do
  let n := baseValue 10 ds
  let r ← get
  if n < r.widths.length then
    if ((r.widths[n]?).bind id).isNone then failBack .openGroup (ds.length + 1)
    else
      checkLookbehind n
      return .reference n
  else failBack (.invalidReference n) ds.length

/-- An escape that begins with a digit other than zero: an octal code point if three octal
digits stand there, a group reference otherwise. -/
def digitEscape (c : Char) : Read Node := do
  match ← takeWhile Char.isDigit 1 with
  | [d] =>
    if isOctalDigit c && isOctalDigit d then
      match ← takeWhile isOctalDigit 1 with
      | [e] =>
        let n := baseValue 8 [c, d, e]
        if 0o377 < n then failBack (.octalTooLarge (String.ofList ['\\', c, d, e])) 4
        else return .literal n
      | _ => numberedReference [c, d]
    else numberedReference [c, d]
  | _ => numberedReference [c]

/-- What an escape outside a class stands for. -/
def escape (c : Char) : Read Node := do
  match categoryEscape? c, anchorEscape? c, letterEscape? c with
  | some m, _, _ => return .set false [m]
  | _, some a, _ => return .anchor a
  | _, _, some n => return .literal n
  | none, none, none =>
    match ← codeEscape? c with
    | some n => return .literal n
    | none =>
      if c = '0' then return .literal (← octalEscape c)
      else if c.isDigit then digitEscape c
      else return .literal (← otherEscape c)

/-- The member that a token of a class stands for. -/
def member : Token → Read Member
  | .escaped c => classEscape c
  | .plain c => return .code c.toNat
  | .dangling => return .code 92

/-- The members of a class up to its closing bracket. -/
def members (start : Nat) : Nat → List Member → Read (List Member)
  | 0, _ => failAt .unterminatedSet start
  | fuel + 1, got => do
    match ← take with
    | none => failAt .unterminatedSet start
    | some t =>
      if t = .plain ']' && !got.isEmpty then return got
      let first ← member t
      if ← accept '-' then
        match ← take with
        | none => failAt .unterminatedSet start
        | some u =>
          if u = .plain ']' then return got ++ [first, .code 45]
          let last ← member u
          match first, last with
          | .code a, .code b =>
            if b < a then failBack (.badRange t.text u.text) (t.size + 1 + u.size)
            else members start fuel (got ++ [.range a b])
          | _, _ => failBack (.badRange t.text u.text) (t.size + 1 + u.size)
      else members start fuel (got ++ [first])

/-- A class after its opening bracket. -/
def bracketed : Read Node := do
  let start := (← position) - 1
  let negated ← accept '^'
  return .set negated (← members start ((← get).tokens.length + 1) [])

/-- The greatest number of repetitions plus one. -/
def repetitionLimit : Nat := 4294967295

/-- A bound of a repetition. -/
def bound (ds : List Char) : Read Nat := do
  if Number.digitLimit < ds.length then throw (.fault .digitLimit)
  let n := baseValue 10 ds
  if repetitionLimit ≤ n then throw (.fault .outOfRange) else return n

/-- The bounds in braces, or nothing if the brace stands for itself. -/
def braces : Read (Option (Nat × Option Nat)) := do
  if (← peek) = some (.plain '\x7d') then return none
  let here ← position
  let saved := (← get).tokens
  let low ← takeWhile Char.isDigit saved.length
  let high ← if ← accept ',' then takeWhile Char.isDigit saved.length else pure low
  if !(← accept '\x7d') then
    setTokens saved
    return none
  let least ← if low.isEmpty then pure 0 else bound low
  if high.isEmpty then return some (least, none)
  let most ← bound high
  if most < least then failAt .boundsReversed here
  return some (least, some most)

/-- The bounds of a quantifier, or nothing if its brace stands for itself. -/
def quantifier : Char → Read (Option (Nat × Option Nat))
  | '?' => return some (0, some 1)
  | '*' => return some (0, none)
  | '+' => return some (1, none)
  | _ => braces

/-- How a quantifier goes on. -/
def repetitionKind : Read Repetition := do
  if ← accept '?' then return .reluctant
  else if ← accept '+' then return .possessive
  else return .greedy

/-- The flag of a letter. -/
def flag? : Char → Option Flags
  | 'i' => some { Flags.none with ignoreCase := true }
  | 'L' => some Flags.none
  | 'm' => some { Flags.none with multiline := true }
  | 's' => some { Flags.none with dotAll := true }
  | 'x' => some { Flags.none with verbose := true }
  | 'a' => some { Flags.none with ascii := true }
  | 'u' => some { Flags.none with unicode := true }
  | 't' => some { Flags.none with template := true }
  | _ => none

/-- Whether a token is a letter, so that it would be a flag. -/
def isLetter : Token → Bool
  | .plain c => Text.isAlphanumeric c && !Text.isDecimalDigit c
  | _ => false

/-- The flags to set, and the token after them. -/
def flagsToSet : Nat → Char → Flags → Read (Flags × Char)
  | 0, c, got => return (got, c)
  | fuel + 1, c, got => do
    if c = 'L' then failBack (.badFlags "cannot use 'L' flag with a str pattern") 0
    let got := got.union ((flag? c).getD Flags.none)
    if got.ascii && got.unicode then
      failBack (.badFlags "flags 'a', 'u' and 'L' are incompatible") 0
    match ← take with
    | none => failBack (.missing "-, : or )") 0
    | some t =>
      match t with
      | .plain d =>
        if d = ')' || d = '-' || d = ':' then return (got, d)
        if (flag? d).isSome then flagsToSet fuel d got
        else failBack (if isLetter t then .unknownFlag else .missing "-, : or )") t.size
      | _ => failBack (.missing "-, : or )") t.size

/-- The flags to clear, up to the colon. -/
def flagsToClear : Nat → Char → Flags → Read Flags
  | 0, _, got => return got
  | fuel + 1, c, got => do
    if c = 'a' || c = 'u' || c = 'L' then
      failBack (.badFlags "cannot turn off flags 'a', 'u' and 'L'") 0
    let got := got.union ((flag? c).getD Flags.none)
    match ← take with
    | none => failBack (.missing ":") 0
    | some t =>
      match t with
      | .plain d =>
        if d = ':' then return got
        if (flag? d).isSome then flagsToClear fuel d got
        else failBack (if isLetter t then .unknownFlag else .missing ":") t.size
      | _ => failBack (.missing ":") t.size

/-- Flags after the question mark: nothing if they hold for the whole pattern, otherwise those
that a group sets and clears. -/
def readFlags (first : Char) : Read (Option (Flags × Flags)) := do
  let fuel := (← get).tokens.length + 1
  let (set, next) ← if first = '-' then pure (Flags.none, '-') else flagsToSet fuel first Flags.none
  if next = ')' then
    modify fun r => { r with flags := r.flags.union set }
    return none
  if set.template then failBack (.badFlags "cannot turn on global flag") 1
  if next = ':' then return some (set, Flags.none)
  match ← take with
  | none => failBack (.missing "flag") 0
  | some t =>
    match t with
    | .plain d =>
      if (flag? d).isNone then
        failBack (if isLetter t then .unknownFlag else .missing "flag") t.size
      let clear ← flagsToClear fuel d Flags.none
      if clear.template then failBack (.badFlags "cannot turn off global flag") 1
      if !(set.inter clear).isEmpty then failBack (.badFlags "flag turned on and off") 1
      return some (set, clear)
    | _ => failBack (.missing "flag") t.size

/-- Open a capturing group. -/
def openGroup (name : Option String) : Read Nat := do
  let r ← get
  let index := r.widths.length
  match name with
  | none =>
    set { r with widths := r.widths ++ [none] }
    return index
  | some n =>
    match r.names.lookup n with
    | some old => failBack (.groupRedefined n index old) (n.length + 1)
    | none =>
      set { r with widths := r.widths ++ [none], names := (n, index) :: r.names }
      return index

/-- Close a capturing group. -/
def closeGroup (index : Nat) (body : Node) : Read Unit :=
  modify fun r => { r with widths := r.widths.set index (some (body.width r.widths)) }

/-- Refuse a name that cannot name a group. -/
def checkName (n : String) : Read Unit := do
  if isName n then return () else failBack (.badGroupName n) (n.length + 1)

/-- A reference to a group by name. -/
def namedReference : Read Node := do
  let n ← name ')' "group name"
  checkName n
  let r ← get
  match r.names.lookup n with
  | none => failBack (.unknownGroup n) (n.length + 1)
  | some index =>
    if ((r.widths[index]?).bind id).isNone then failBack .openGroup (n.length + 1)
    checkLookbehind index
    return .reference index

/-- The group that a condition asks for. -/
def conditionGroup : Read Nat := do
  let n ← name ')' "group name"
  if isName n then
    match (← get).names.lookup n with
    | none => failBack (.unknownGroup n) (n.length + 1)
    | some index => return index
  else
    match Number.readInteger n.toList with
    | .error _ => failBack (.badGroupName n) (n.length + 1)
    | .ok i =>
      if i < 0 then failBack (.badGroupName n) (n.length + 1)
      if i = 0 then failBack .badGroupNumber (n.length + 1)
      if 1073741823 ≤ i then failBack (.invalidReference i) (n.length + 1)
      let p ← position
      modify fun r =>
        if (r.references.lookup i.toNat).isSome then r
        else { r with references := r.references ++ [(i.toNat, p - n.length - 1)] }
      return i.toNat

/-- Skip a comment of a verbose pattern, to the end of the line. -/
def skipLine : Nat → Read Unit
  | 0 => return ()
  | fuel + 1 => do
    match ← take with
    | none => return ()
    | some t => if t = .plain '\n' then return () else skipLine fuel

/-- Skip a comment group. -/
def skipComment (start : Nat) : Nat → Read Unit
  | 0 => failAt .unterminatedComment start
  | fuel + 1 => do
    match ← take with
    | none => failAt .unterminatedComment start
    | some t => if t = .plain ')' then return () else skipComment start fuel

/-- What a group is, from the characters after its opening parenthesis. -/
inductive GroupKind
  | capture (name : Option String)
  | scope (set clear : Flags)
  | atomic
  | look (ahead negated : Bool)
  | condition (index : Nat)
  | done (node : Option Node)

/-- Find out what a group is; groups without contents of their own are done here. `atStart` tells
whether nothing stands before the group. -/
def groupKind (start : Nat) (atStart : Bool) : Read GroupKind := do
  if !(← accept '?') then return .capture none
  match ← take with
  | none => failBack .unexpectedEnd 0
  | some t =>
    match t with
    | .plain 'P' =>
      if ← accept '<' then
        let n ← name '>' "group name"
        checkName n
        return .capture (some n)
      else if ← accept '=' then return .done (some (← namedReference))
      else
        match ← take with
        | none => failBack .unexpectedEnd 0
        | some u => failBack (.unknownExtension ("?P" ++ u.text)) (u.size + 2)
    | .plain ':' => return .scope Flags.none Flags.none
    | .plain '#' =>
      skipComment start ((← get).tokens.length + 1)
      return .done none
    | .plain '=' => return .look true false
    | .plain '!' => return .look true true
    | .plain '<' =>
      match ← take with
      | none => failBack .unexpectedEnd 0
      | some u =>
        if u = .plain '=' then return .look false false
        else if u = .plain '!' then return .look false true
        else failBack (.unknownExtension ("?<" ++ u.text)) (u.size + 2)
    | .plain '(' => return .condition (← conditionGroup)
    | .plain '>' => return .atomic
    | .plain c =>
      if c = '-' || (flag? c).isSome then
        match ← readFlags c with
        | none => if atStart then return .done none else failAt .flagsNotAtStart start
        | some (set, clear) => return .scope set clear
      else failBack (.unknownExtension ("?" ++ t.text)) (t.size + 1)
    | _ => failBack (.unknownExtension ("?" ++ t.text)) (t.size + 1)

/-- Expect the end of a group. -/
def closing (start : Nat) : Read Unit := do
  if ← accept ')' then return () else failAt .unterminatedGroup start

/-- A quantifier applied to the last of the nodes read so far. -/
def quantified (c : Char) (got : List Node) : Read (List Node) := do
  let here ← position
  match ← quantifier c with
  | none => return .literal c.toNat :: got
  | some (least, most) =>
    match got with
    | [] => failAt .nothingToRepeat (here - 1)
    | n :: rest =>
      if n.isAnchor then failAt .nothingToRepeat (here - 1)
      if n.isRepetition then failAt .multipleRepeat (here - 1)
      return .repeated (← repetitionKind) least most n :: rest

mutual

/-- Alternatives up to the end of the group or pattern. `outermost` tells that no group is
open. -/
def alternatives : Nat → Bool → Bool → Read Node
  | 0, _, _ => return .empty
  | fuel + 1, verbose, outermost => do
    let first ← sequence fuel verbose outermost []
    let mut branches := [first]
    if (← peek) = some (.plain '|') then
      branches := first :: (← moreBranches fuel verbose outermost)
    return Node.ofBranches branches

/-- Branches after the first, each behind a bar. -/
def moreBranches : Nat → Bool → Bool → Read (List Node)
  | 0, _, _ => return []
  | fuel + 1, verbose, outermost => do
    if ← accept '|' then
      let whole ← get
      let verbose := if outermost then whole.flags.verbose else verbose
      let n ← sequence fuel verbose false []
      return n :: (← moreBranches fuel verbose outermost)
    else return []

/-- Nodes up to a bar, a closing parenthesis or the end, the last one read first in `got`.
`first` tells that the sequence begins the pattern. -/
def sequence : Nat → Bool → Bool → List Node → Read Node
  | 0, _, _, got => return Node.ofList got.reverse
  | fuel + 1, verbose, first, got => do
    match ← peek with
    | none => return Node.ofList got.reverse
    | some (.plain '|') => return Node.ofList got.reverse
    | some (.plain ')') => return Node.ofList got.reverse
    | some _ =>
      match ← take with
      | none => return Node.ofList got.reverse
      | some .dangling => return Node.ofList got.reverse
      | some (.escaped c) => do
        let n ← escape c
        sequence fuel verbose first (n :: got)
      | some (.plain c) =>
        if verbose && (c == ' ' || (9 ≤ c.toNat && c.toNat ≤ 13)) then
          sequence fuel verbose first got
        else if verbose && c == '#' then do
          skipLine ((← get).tokens.length + 1)
          sequence fuel verbose first got
        else if c == '[' then do
          let n ← bracketed
          sequence fuel verbose first (n :: got)
        else if c == '?' || c == '*' || c == '+' || c == '\x7b' then do
          let got ← quantified c got
          sequence fuel verbose first got
        else if c == '.' then sequence fuel verbose first (.any :: got)
        else if c == '^' then sequence fuel verbose first (.anchor .lineStart :: got)
        else if c == '$' then sequence fuel verbose first (.anchor .lineEnd :: got)
        else if c == '(' then do
          let n ← grouped fuel verbose (first && got.isEmpty)
          let whole ← get
          let verbose := verbose || (n.isNone && first && got.isEmpty && whole.flags.verbose)
          sequence fuel verbose first (n.toList ++ got)
        else sequence fuel verbose first (.literal c.toNat :: got)

/-- A group after its opening parenthesis. -/
def grouped : Nat → Bool → Bool → Read (Option Node)
  | 0, _, _ => return none
  | fuel + 1, verbose, atStart => do
    let start := (← position) - 1
    match ← groupKind start atStart with
    | .done n => return n
    | .look ahead negated => do
      let outer := (← get).lookbehind
      if !ahead && outer.isNone then
        modify fun r => { r with lookbehind := some r.widths.length }
      let body ← alternatives fuel verbose false
      if !ahead && outer.isNone then modify fun r => { r with lookbehind := none }
      closing start
      return some (.look ahead negated body)
    | .condition index => do
      checkLookbehind index
      let yes ← sequence fuel verbose false []
      let no ← if ← accept '|' then do
          let no ← sequence fuel verbose false []
          if (← peek) = some (.plain '|') then failBack .tooManyBranches 0
          pure no
        else pure .empty
      closing start
      return some (.conditional index yes no)
    | .atomic => do
      let body ← alternatives fuel verbose false
      closing start
      return some (.atomic body)
    | .scope set clear => do
      let body ← alternatives fuel ((verbose || set.verbose) && !clear.verbose) false
      closing start
      return some (.group none set clear body)
    | .capture name => do
      let index ← openGroup name
      let body ← alternatives fuel verbose false
      closing start
      closeGroup index body
      return some (.group (some index) Flags.none Flags.none body)

end

/-- Whether every look-behind in a node has a fixed width. -/
def lookbehindsFixed (widths : List (Option Width)) : Node → Bool
  | .seq a b => lookbehindsFixed widths a && lookbehindsFixed widths b
  | .alt a b => lookbehindsFixed widths a && lookbehindsFixed widths b
  | .repeated _ _ _ body => lookbehindsFixed widths body
  | .group _ _ _ body => lookbehindsFixed widths body
  | .look ahead _ body =>
    (ahead || (body.width widths).fixed?.isSome) && lookbehindsFixed widths body
  | .atomic body => lookbehindsFixed widths body
  | .conditional _ yes no => lookbehindsFixed widths yes && lookbehindsFixed widths no
  | _ => true

end TableAudit.Pattern

namespace TableAudit

/-- A pattern with the text it was read from, the widths of its groups and the flags for the
whole. -/
structure Pattern where
  source : String
  node : Pattern.Node
  widths : List (Option Pattern.Width)
  flags : Pattern.Flags
deriving Repr

namespace Pattern

open Read

/-- Read the tokens of a whole pattern. -/
def whole (source : String) : Read Pattern := do
  let ts := (← get).tokens
  setTokens ts
  let node ← alternatives (4 * ts.length + 4) false true
  let r ← get
  if r.flags.ascii && r.flags.unicode then throw (.fault .malformed)
  if (← peek).isSome then failBack .unbalanced 0
  match r.references.find? fun g => r.widths.length ≤ g.1 with
  | some (n, p) => failAt (.invalidReference n) p
  | none =>
    if lookbehindsFixed r.widths node then return ⟨source, node, r.widths, r.flags⟩
    else throw (.mistake ⟨.lookbehindWidth, none⟩)

/-- Read a pattern. -/
def ofText? (source : String) : Except Refusal Pattern :=
  let cs := source.toList
  ((whole source).run ⟨cs.length, Token.scan cs, [none], [], none, [], Flags.none⟩).map (·.1)

end Pattern

end TableAudit
