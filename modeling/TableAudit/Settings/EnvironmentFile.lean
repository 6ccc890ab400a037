import TableAudit.Settings.Basic
import TableAudit.Text.Basic
import TableAudit.Text.Search

/-!
# Files of variables

A file of variables has a binding on each line: a name, an equals sign and a value, which may be
quoted and then may go over several lines. A line that is no binding is skipped. A value may refer
to variables by `$` and braces, with a default after `:-`. The bindings win over the environment.
-/

namespace TableAudit.Settings.EnvironmentFile

open TableAudit.Text (isBlank trimRight)

/-- A blank within a line. -/
def isGap (c : Char) : Bool :=
  isBlank c && c ≠ '\n'

/-- Past the blanks within a line. -/
def skipGap (cs : List Char) : List Char :=
  cs.dropWhile isGap

/-- A binding as it is written: its name, and its value where an equals sign stands. -/
structure Binding where
  name : String
  value : Option (List Char)
deriving DecidableEq, Repr

/-! ## Names -/

/-- The word that may stand in front of a name. -/
def exportWord : List Char := "export".toList

/-- Past the word that may stand in front of a name, with blanks after it. -/
def skipExport (cs : List Char) : List Char :=
  match Text.afterRun? exportWord cs with
  | none => cs
  | some rest => if rest.head?.any isGap then skipGap rest else cs

/-- A character of a name that is not quoted. -/
def isNameChar (c : Char) : Bool :=
  c ≠ '=' && c ≠ '#' && !isBlank c

/-- A name between single quotes, after the first one. -/
def quotedName? (cs : List Char) : Option (String × List Char) :=
  match Text.cutAt? '\'' cs with
  | none => none
  | some (name, rest) => if name.isEmpty then none else some (String.ofList name, rest)

/-- The name in front and the rest, or the place where there is none. A comment has no name. -/
def name : List Char → Except (List Char) (Option String × List Char)
  | '#' :: cs => .ok (none, '#' :: cs)
  | '\'' :: cs =>
    match quotedName? cs with
    | some (s, rest) => .ok (some s, rest)
    | none => .error ('\'' :: cs)
  | cs =>
    let s := cs.takeWhile isNameChar
    if s.isEmpty then .error cs else .ok (some (String.ofList s), cs.drop s.length)

/-! ## Values -/

/-- The text between quotes and the rest after the closing one, which is the first without a
backslash in front or else the last with one. -/
def quotedText? (quote : Char) : List Char → Option (List Char × List Char)
  | [] => none
  | '\\' :: c :: cs =>
    if c = quote then
      match quotedText? quote cs with
      | some (s, rest) => some ('\\' :: c :: s, rest)
      | none => some (['\\'], cs)
    else (quotedText? quote (c :: cs)).map fun r => ('\\' :: r.1, r.2)
  | c :: cs =>
    if c = quote then some ([], cs) else (quotedText? quote cs).map fun r => (c :: r.1, r.2)

/-- The characters that a backslash makes of letters between double quotes. -/
def doubleEscapes : List (Char × Char) := [
  ('\\', '\\'), ('\'', '\''), ('"', '"'), ('a', '\x07'), ('b', '\x08'), ('f', '\x0c'),
  ('n', '\n'), ('r', '\r'), ('t', '\t'), ('v', '\x0b')]

/-- Between single quotes only backslashes and single quotes are escaped. -/
def singleEscapes : List (Char × Char) := [('\\', '\\'), ('\'', '\'')]

/-- A text with its escapes resolved; a backslash before any other character stays. -/
def unescaped (escapes : List (Char × Char)) : List Char → List Char
  | '\\' :: c :: cs =>
    match escapes.lookup c with
    | some d => d :: unescaped escapes cs
    | none => '\\' :: unescaped escapes (c :: cs)
  | c :: cs => c :: unescaped escapes cs
  | [] => []

/-- A value without quotes ends before a comment that follows a blank. -/
def beforeComment : List Char → List Char
  | [] => []
  | c :: cs =>
    if isBlank c && (cs.dropWhile isBlank).head? = some '#' then []
    else c :: beforeComment cs

/-- The value in front and the rest, or the place of a quote that is not closed. -/
def value : List Char → Except (List Char) (List Char × List Char)
  | [] => .ok ([], [])
  | c :: cs =>
    if c = '\'' ∨ c = '"' then
      match quotedText? c cs with
      | some (s, rest) =>
        .ok (unescaped (if c = '"' then doubleEscapes else singleEscapes) s, rest)
      | none => .error (c :: cs)
    else
      let line := (c :: cs).takeWhile (· ≠ '\n')
      .ok (trimRight (beforeComment line), (c :: cs).drop line.length)

/-! ## Bindings -/

/-- Past a comment, if one stands here. -/
def skipComment (cs : List Char) : List Char :=
  let rest := skipGap cs
  if rest.head? = some '#' then rest.dropWhile (· ≠ '\n') else cs

/-- Past the end of the line. -/
def lineEnd (cs : List Char) : Except (List Char) (List Char) :=
  match skipGap cs with
  | [] => .ok []
  | '\n' :: rest => .ok rest
  | _ => .error cs

/-- The binding in front and the rest, or the place where reading went wrong. A comment is no
binding. -/
def binding (cs : List Char) : Except (List Char) (Option Binding × List Char) := do
  let (name, cs) ← name (skipExport cs)
  let cs := skipGap cs
  let (value, cs) ←
    match cs with
    | '=' :: rest => (value (skipGap rest)).map fun r => (some r.1, r.2)
    | _ => .ok (none, cs)
  let cs ← lineEnd (skipComment cs)
  .ok (name.map fun n => ⟨n, value⟩, cs)

/-- Past the rest of a line. -/
def restOfLine (cs : List Char) : List Char :=
  (cs.dropWhile (· ≠ '\n')).drop 1

/-- The bindings of a text. Each takes a character at least. -/
def bindingsIn : Nat → List Char → List Binding
  | 0, _ => []
  | fuel + 1, cs =>
    let cs := cs.dropWhile isBlank
    if cs.isEmpty then []
    else
      match binding cs with
      | .ok (b, rest) => b.toList ++ bindingsIn fuel rest
      | .error rest => bindingsIn fuel (restOfLine rest)

/-- The bindings of a text. -/
def bindings (s : String) : List Binding :=
  let cs := Text.unifiedLines s.toList
  bindingsIn (cs.length + 1) cs

/-! ## References -/

/-- A reference to a variable with its default, after the opening brace, and the rest. -/
def reference? (cs : List Char) : Option (String × List Char × List Char) :=
  let name := cs.takeWhile fun c => c ≠ '\x7d' && c ≠ ':'
  match cs.drop name.length with
  | '\x7d' :: rest => some (String.ofList name, [], rest)
  | ':' :: '-' :: rest =>
    (Text.cutAt? '\x7d' rest).map fun r => (String.ofList name, r.1, r.2)
  | _ => none

/-- A value with its references resolved. -/
def filled (valueOf : String → Option String) : Nat → List Char → List Char
  | 0, _ => []
  | _ + 1, [] => []
  | fuel + 1, c :: cs =>
    if c = '$' ∧ cs.head? = some '\x7b' then
      match reference? cs.tail with
      | some (name, default, rest) =>
        ((valueOf name).map String.toList).getD default ++ filled valueOf fuel rest
      | none => c :: filled valueOf fuel cs
    else c :: filled valueOf fuel cs

/-- Variables that are bound, to a value or to none. -/
abbrev Bound := List (String × Option String)

/-- The value of a variable: what it was bound to, or else what the environment has. One that is
bound to none is as an empty one. -/
def valueIn (bound : Bound) (env : Environment) (name : String) : Option String :=
  match bound.lookup name with
  | some v => some (v.getD "")
  | none => env.lookup name

/-- Bind variables in turn. A value may refer to the bindings before it. -/
def bind (env : Environment) : Bound → List Binding → Bound
  | bound, [] => bound
  | bound, b :: bs =>
    let v := b.value.map fun cs =>
      String.ofList (filled (valueIn bound env) (cs.length + 1) cs)
    bind env ((b.name, v) :: bound) bs

/-- Whether a binding is the last one of its name, with the later ones in front. -/
def latest : Bound → Bound
  | [] => []
  | b :: bs => b :: (latest bs).filter (·.1 ≠ b.1)

/-- The environment with the bindings of a file. -/
def extend (file : Option String) (env : Environment) : Environment :=
  match file with
  | none => env
  | some s =>
    let set := (latest (bind env [] (bindings s))).filterMap fun b => b.2.map fun v => (b.1, v)
    set ++ env

/-- The variables that a file refers to. -/
def mentioned : List Char → List String
  | [] => []
  | c :: cs =>
    if c = '$' ∧ cs.head? = some '\x7b' then
      ((reference? cs.tail).map (·.1)).toList ++ mentioned cs
    else mentioned cs

end TableAudit.Settings.EnvironmentFile
