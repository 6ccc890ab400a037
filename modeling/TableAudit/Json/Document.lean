import TableAudit.Fault
import TableAudit.Json.Write

/-!
# JSON documents

The JSON document of a value is what reading its JSON text back gives: tuples become lists, and
keys become texts. Only finite numbers, texts, truth values, nothing, lists and mappings have one,
and no integer in it may have too many digits.
-/

namespace TableAudit.Json

open TableAudit.Number (Binary64)

/-- The number as a document, if it is finite. -/
def finiteFloat (x : Binary64) : Except Fault Binary64 :=
  if x.isFinite then .ok x else .error .malformed

/-- The integer as a document, if it is short enough to be written. -/
def shortInteger (n : Int) : Except Fault Int :=
  if (Value.int n).isWritable then .ok n else .error .digitLimit

/-- The text of a key in a document. -/
def documentKey : Value → Except Fault String
  | .float x => (finiteFloat x).map float
  | .int n => (shortInteger n).map toString
  | k =>
    match key? k with
    | some s => .ok s
    | none => .error .wrongKind

mutual

/-- The document of a value. -/
def document : Value → Except Fault Value
  | .null => .ok .null
  | .bool b => .ok (.bool b)
  | .int n => (shortInteger n).map .int
  | .float x => (finiteFloat x).map .float
  | .text s => .ok (.text s)
  | .list items => (documents items).map .list
  | .tuple items => (documents items).map .list
  | .map entries => (documentEntries entries).map fun es => .map (Value.ofPairs es)
  | _ => .error .wrongKind

/-- The documents of values. -/
def documents : List Value → Except Fault (List Value)
  | [] => .ok []
  | v :: vs => do
    let d ← document v
    let ds ← documents vs
    .ok (d :: ds)

/-- The documents of the entries of a mapping. -/
def documentEntries : List (Value × Value) → Except Fault (List (Value × Value))
  | [] => .ok []
  | (k, v) :: es => do
    let name ← documentKey k
    let d ← document v
    let ds ← documentEntries es
    .ok ((.text name, d) :: ds)

end

end TableAudit.Json
