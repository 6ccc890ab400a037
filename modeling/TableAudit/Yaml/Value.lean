import TableAudit.Text.Search
import TableAudit.Yaml.Layout
import TableAudit.Yaml.Node

/-!
# Values of documents

The value of a document is the value of its tree. A mapping may merge others into itself: their
entries come first, so that its own win. Sequences and mappings cannot be keys.
-/

namespace TableAudit.Yaml

/-- Whether a value can be a key. -/
def isKey : Value → Bool
  | .list _ => false
  | .map _ => false
  | _ => true

/-- The value of a key. The key of a default is a text. -/
def keyValue (k : Kind) (s : String) : Except Refusal Value :=
  if k = .default then .ok (.text s) else k.valueOf s

/-- The entries of a mapping: those merged into it, and its own. -/
structure Entries where
  merged : List (Value × Value)
  own : List (Value × Value)
deriving Repr

/-- All entries, later ones winning over earlier ones with an equal key. -/
def Entries.all (es : Entries) : List (Value × Value) :=
  es.merged ++ es.own

mutual

/-- The value of a node. -/
def Node.value : Node → Except Refusal Value
  | .scalar k s => k.valueOf s
  | .sequence .sequence items => do
    let vs ← itemValues items
    .ok (.list vs)
  | .mapping .mapping es => do
    let entries ← entryValues es
    .ok (.map (Value.ofPairs entries.all))
  | _ => .error .malformed

/-- The values of the items of a sequence. -/
def itemValues : List Node → Except Refusal (List Value)
  | [] => .ok []
  | n :: ns => do
    let v ← n.value
    let vs ← itemValues ns
    .ok (v :: vs)

/-- The entries of a mapping node, whatever it is taken for. -/
def Node.entries : Node → Except Refusal (List (Value × Value))
  | .mapping _ es => do
    let entries ← entryValues es
    .ok entries.all
  | _ => .error .malformed

/-- The entries of several mapping nodes, the first ones winning. -/
def mergedValues : List Node → Except Refusal (List (Value × Value))
  | [] => .ok []
  | n :: ns => do
    let es ← n.entries
    let others ← mergedValues ns
    .ok (others ++ es)

/-- The value of a node as a key. -/
def Node.key : Node → Except Refusal Value
  | .scalar k s => keyValue k s
  | n => n.value

/-- What a node merges into a mapping: a mapping, or a sequence of mappings. -/
def Node.merges : Node → Except Refusal (List (Value × Value))
  | .mapping _ es => do
    let entries ← entryValues es
    .ok entries.all
  | .sequence _ items => mergedValues items
  | _ => .error .malformed

/-- The entries of a mapping. -/
def entryValues : List (Node × Node) → Except Refusal Entries
  | [] => .ok ⟨[], []⟩
  | (.scalar .merge _, n) :: es => do
    let merged ← n.merges
    let rest ← entryValues es
    .ok { rest with merged := merged ++ rest.merged }
  | (k, n) :: es => do
    let k ← k.key
    require (isKey k)
    let v ← n.value
    let rest ← entryValues es
    .ok { rest with own := (k, v) :: rest.own }

end

/-- A character that may stand in a document. -/
def isAllowed (c : Char) : Bool :=
  let n := c.toNat
  c == '\t' || c == '\n' || c == '\r' || (0x20 ≤ n && n ≤ 0x7E) || n == 0x85 ||
    (0xA0 ≤ n && n ≤ 0xD7FF) || (0xE000 ≤ n && n ≤ 0xFFFD) || 0x10000 ≤ n

/-- The value that a text stands for. A text without a document stands for nothing. -/
def read (s : String) : Except Refusal Value := do
  let cs := Text.unifiedLines s.toList
  require (cs.all isAllowed)
  let ts ← tokens cs
  match ← Node.ofTokens? ts with
  | none => .ok .null
  | some n => n.value

end TableAudit.Yaml
