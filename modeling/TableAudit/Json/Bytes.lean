import TableAudit.Json.Read

/-!
# JSON in bytes

A JSON text comes as bytes in UTF-8, UTF-16 or UTF-32. Which it is shows in a byte order mark at
the front, or in where the zero bytes are among the first four.
-/

namespace TableAudit.Json

/-- Encodings of texts. The order of bytes matters to units of more than one. -/
inductive Encoding
  | utf8
  | utf16 (bigEndian : Bool)
  | utf32 (bigEndian : Bool)
deriving DecidableEq, Repr

/-- A unit of two bytes. -/
def unit16 (bigEndian : Bool) (a b : UInt8) : Nat :=
  if bigEndian then a.toNat * 256 + b.toNat else b.toNat * 256 + a.toNat

/-- The character with a code, if there is one. -/
def charOf? (n : Nat) : Option Char :=
  if n < 0xD800 ∨ (0xDFFF < n ∧ n < 0x110000) then some (Char.ofNat n) else none

/-- The text of bytes in UTF-32. -/
def text32? (bigEndian : Bool) : List UInt8 → Option (List Char)
  | [] => some []
  | a :: b :: c :: d :: rest =>
    let high := unit16 bigEndian a b
    let low := unit16 bigEndian c d
    let n := if bigEndian then high * 65536 + low else low * 65536 + high
    match charOf? n, text32? bigEndian rest with
    | some ch, some cs => some (ch :: cs)
    | _, _ => none
  | _ => none

/-- The units of bytes in UTF-16. -/
def units16? (bigEndian : Bool) : List UInt8 → Option (List Nat)
  | [] => some []
  | a :: b :: rest => (units16? bigEndian rest).map (unit16 bigEndian a b :: ·)
  | _ => none

/-- Whether a unit is the first of a pair. -/
def isHighUnit (n : Nat) : Bool := 0xD800 ≤ n && n < 0xDC00

/-- Whether a unit is the second of a pair. -/
def isLowUnit (n : Nat) : Bool := 0xDC00 ≤ n && n < 0xE000

/-- The text of units of UTF-16. -/
def text16? : List Nat → Option (List Char)
  | [] => some []
  | [n] => (charOf? n).map fun c => [c]
  | n :: m :: rest =>
    if isHighUnit n then
      if isLowUnit m then
        (text16? rest).map (Char.ofNat (0x10000 + (n - 0xD800) * 0x400 + (m - 0xDC00)) :: ·)
      else none
    else
      match charOf? n, text16? (m :: rest) with
      | some c, some cs => some (c :: cs)
      | _, _ => none

/-- The text of bytes in UTF-8. -/
def text8? (bytes : List UInt8) : Option (List Char) :=
  (String.fromUTF8? (ByteArray.mk bytes.toArray)).map String.toList

/-- The text of bytes in an encoding. -/
def textIn? : Encoding → List UInt8 → Option (List Char)
  | .utf8, bytes => text8? bytes
  | .utf16 big, bytes => (units16? big bytes).bind text16?
  | .utf32 big, bytes => text32? big bytes

/-- The encoding of bytes without a byte order mark. -/
def plainEncoding : List UInt8 → Encoding
  | 0 :: b :: _ :: _ :: _ => if b = 0 then .utf32 true else .utf16 true
  | _ :: 0 :: c :: d :: _ => if c = 0 && d = 0 then .utf32 false else .utf16 false
  | [0, _] => .utf16 true
  | [_, 0] => .utf16 false
  | _ => .utf8

/-- The encoding of bytes, and the bytes after the byte order mark. -/
def encoded : List UInt8 → Encoding × List UInt8
  | 0x00 :: 0x00 :: 0xFE :: 0xFF :: rest => (.utf32 true, rest)
  | 0xFF :: 0xFE :: 0x00 :: 0x00 :: rest => (.utf32 false, rest)
  | 0xFE :: 0xFF :: rest => (.utf16 true, rest)
  | 0xFF :: 0xFE :: rest => (.utf16 false, rest)
  | 0xEF :: 0xBB :: 0xBF :: rest => (.utf8, rest)
  | bytes => (plainEncoding bytes, bytes)

/-- The value of a JSON text in bytes, if they are one. -/
def readBytes? (bytes : List UInt8) : Option Value :=
  let (encoding, rest) := encoded bytes
  match textIn? encoding rest with
  | none => none
  | some cs =>
    match read (String.ofList cs) with
    | .ok v => some v
    | .error _ => none

end TableAudit.Json
