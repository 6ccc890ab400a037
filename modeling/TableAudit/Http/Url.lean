import TableAudit.Json.Bytes
import TableAudit.Text.Quoted
import TableAudit.Text.Search

/-!
# Addresses

An address names a host, a path, and a list of parameters. Characters may be written as escaped
bytes; in parameters a plus sign stands for a space. Steps of a path that stay or go back are
taken out.
-/

namespace TableAudit.Http

/-- The parts of an address, with escapes resolved. -/
structure Address where
  host : String
  path : String
  query : List (String × String)
deriving DecidableEq, Repr

namespace Address

/-- The bytes of a text with escaped bytes resolved. -/
def resolvedBytes : List UInt8 → List UInt8
  | 37 :: a :: b :: rest =>
    match Json.hexValue? (Char.ofNat a.toNat), Json.hexValue? (Char.ofNat b.toNat) with
    | some x, some y => UInt8.ofNat (x * 16 + y) :: resolvedBytes rest
    | _, _ => 37 :: resolvedBytes (a :: b :: rest)
  | c :: rest => c :: resolvedBytes rest
  | [] => []

/-- A text with escaped bytes resolved, if they form a text. -/
def resolved (s : List Char) : String :=
  let plain := String.ofList s
  ((Json.text8? (resolvedBytes plain.toUTF8.toList)).map String.ofList).getD plain

/-- Take out the steps of a path that stay or go back. -/
def straightened (steps : List String) : List String :=
  if steps.contains "." || steps.contains ".." then
    steps.foldl (fun out step =>
      if step = "." then out
      else if step = ".." then (if out = [] || out = [""] then out else out.dropLast)
      else out ++ [step]) []
  else steps

/-- The path with the steps that go nowhere taken out, and escapes resolved. -/
def pathText (cs : List Char) : String :=
  let steps := (Text.splitAll '/' cs).map String.ofList
  let path := resolved ("/".intercalate (straightened steps)).toList
  if path.isEmpty then "/" else path

/-- A name or a value among the parameters. -/
def parameterText (cs : List Char) : String :=
  resolved (cs.map fun c => if c = '+' then ' ' else c)

/-- A parameter. Without an equals sign its value is empty. -/
def parameter (cs : List Char) : String × String :=
  match Text.cutAt? '=' cs with
  | some (k, v) => (parameterText k, parameterText v)
  | none => (parameterText cs, "")

/-- The parameters of an address. -/
def parameters (cs : List Char) : List (String × String) :=
  ((Text.splitAll '&' cs).filter fun p => !p.isEmpty).map parameter

/-- The text up to a character, and the text after it. -/
def cut (c : Char) (cs : List Char) : List Char × List Char :=
  (Text.cutAt? c cs).getD (cs, [])

/-- The host's name in the part of an address between the scheme and the path. -/
def hostName (authority : List Char) : String :=
  let afterUser := ((Text.cutAt? '@' authority).map (·.2)).getD authority
  String.ofList ((cut ':' afterUser).1.map Char.toLower)

/-- The scheme of an address, and what comes after it. -/
def splitScheme : List Char → Option (List Char × List Char)
  | [] => none
  | c :: cs =>
    match Text.afterRun? "://".toList (c :: cs) with
    | some rest => some ([], rest)
    | none => (splitScheme cs).map fun (scheme, rest) => (c :: scheme, rest)

/-- The parts of an address. -/
def ofText (url : String) : Address :=
  let whole := (cut '#' url.toList).1
  let (beforeQuery, query) := cut '?' whole
  let rest := ((splitScheme beforeQuery).map (·.2)).getD beforeQuery
  let authority := rest.takeWhile (· ≠ '/')
  ⟨hostName authority, pathText (rest.drop authority.length), parameters query⟩

/-- The bytes of a text, escaped unless they are admitted. An escape stays as it is. -/
def escapedBytes (admits : Char → Bool) : List UInt8 → List Char
  | [] => []
  | [b] => escapedByte admits b
  | [b, c] => escapedByte admits b ++ escapedByte admits c
  | b :: c :: d :: rest =>
    let isEscape := b = 37 && (Json.hexValue? (Char.ofNat c.toNat)).isSome &&
      (Json.hexValue? (Char.ofNat d.toNat)).isSome
    if isEscape then '%' :: escapedBytes admits (c :: d :: rest)
    else escapedByte admits b ++ escapedBytes admits (c :: d :: rest)
where
  /-- A byte, escaped unless it is admitted. -/
  escapedByte (admits : Char → Bool) (b : UInt8) : List Char :=
    let c := Char.ofNat b.toNat
    if 32 < b.toNat && b.toNat < 127 && c ≠ '%' && admits c then [c]
    else '%' :: (Text.hex 2 b.toNat).map Char.toUpper

/-- A part of an address, escaped where it has to be. -/
def escaped (forbidden : String) (cs : List Char) : String :=
  String.ofList (escapedBytes (fun c => !forbidden.toList.contains c)
    (String.ofList cs).toUTF8.toList)

/-- The part between scheme and path in its usual form: in lower case, without a port that goes
without saying. -/
def usualAuthority (scheme : String) (authority : List Char) : String :=
  let lower := String.ofList (authority.map Char.toLower)
  let port := if scheme = "https" then ":443" else ":80"
  if lower.endsWith port then String.ofList (lower.toList.take (lower.length - port.length))
  else lower

/-- An address in its usual form. -/
def usualText (url : String) : String :=
  let (whole, fragment) := cut '#' url.toList
  let (beforeQuery, query) := cut '?' whole
  let (scheme, rest) := (splitScheme beforeQuery).getD ([], beforeQuery)
  let scheme := String.ofList (scheme.map Char.toLower)
  let authority := rest.takeWhile (· ≠ '/')
  let steps := (Text.splitAll '/' (rest.drop authority.length)).map String.ofList
  let path := escaped "\"#<>?\x60\x7b\x7d" ("/".intercalate (straightened steps)).toList
  scheme ++ "://" ++ usualAuthority scheme authority ++ (if path.isEmpty then "/" else path) ++
    (if query.isEmpty then "" else "?" ++ escaped "\"#<>" query) ++
    (if fragment.isEmpty then "" else "#" ++ escaped "\"<>\x60" fragment)

end Address

end TableAudit.Http
