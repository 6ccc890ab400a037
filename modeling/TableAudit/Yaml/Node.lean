import TableAudit.Yaml.Kind
import TableAudit.Yaml.Token

/-!
# Nodes

A document is a tree of texts, sequences and mappings. It is read from its tokens; a reference
stands for the node that an anchor named before it.
-/

namespace TableAudit.Yaml

/-- A part of a document with what it is taken for. -/
inductive Node
  | scalar (kind : Kind) (text : String)
  | sequence (kind : Kind) (items : List Node)
  | mapping (kind : Kind) (entries : List (Node × Node))
deriving Inhabited, Repr

namespace Node

/-- The node where nothing is written. -/
def empty : Node :=
  .scalar (Kind.ofPlain "") ""

/-- What is left to read, and what was named so far. -/
structure Reading where
  tokens : List Token
  anchors : List (String × Node)
  handles : List (String × String)
deriving Repr

/-- A step of reading. -/
abbrev Read (α : Type) := StateT Reading (Except Refusal) α

/-- The document cannot be read. -/
def refuse {α : Type} : Read α :=
  throw .malformed

/-- The next token. Past the last one the text ends. -/
def peek : Read Token := do
  return (← get).tokens.head?.getD .streamEnd

/-- Past a token. -/
def drop : Read Unit :=
  modify fun r => { r with tokens := r.tokens.tail }

/-- Past a token that must be there. -/
def expect (t : Token) : Read Unit := do
  if (← peek) = t then drop else refuse

/-- Whether one of several tokens is next. -/
def isNext (ts : List Token) : Read Bool := do
  return ts.contains (← peek)

/-! ## Anchors and tags -/

/-- The anchor and the tag in front of a node. -/
structure Properties where
  anchor : Option String
  tag : Option String
deriving Repr

/-- The anchor that is next, if one is. -/
def anchor? : Read (Option String) := do
  match ← peek with
  | .anchor name => drop; pure (some name)
  | _ => pure none

/-- The tag that is next, if one is, spelled out. -/
def tag? : Read (Option String) := do
  match ← peek with
  | .tag none suffix => drop; pure (some suffix)
  | .tag (some handle) suffix =>
    drop
    match (← get).handles.lookup handle with
    | some stem => pure (some (stem ++ suffix))
    | none => refuse
  | _ => pure none

/-- Anchor and tag in either order. -/
def properties : Read Properties := do
  match ← anchor? with
  | some name => return ⟨some name, ← tag?⟩
  | none =>
    match ← tag? with
    | some tag => return ⟨← anchor?, some tag⟩
    | none => pure ⟨none, none⟩

/-- Whether a name is free for an anchor. -/
def checkFree (name : Option String) : Read Unit := do
  let anchors := (← get).anchors
  if name.any fun n => (anchors.lookup n).isSome then refuse

/-- Name a node. A name is given once. -/
def register (anchor : Option String) (n : Node) : Read Unit := do
  checkFree anchor
  match anchor with
  | none => pure ()
  | some name => modify fun r => { r with anchors := (name, n) :: r.anchors }

/-- The node that was named. -/
def named (name : String) : Read Node := do
  match (← get).anchors.lookup name with
  | some n => pure n
  | none => refuse

/-- The kind of a text. A tag decides it, or else the form of a plain text; an exclamation mark
asks for the form of any text. -/
def scalarKind (tag : Option String) (plain : Bool) (s : String) : Kind :=
  match tag with
  | some "!" => .ofPlain s
  | some tag => .ofTag tag
  | none => if plain then .ofPlain s else .text

/-- The kind of a collection. -/
def collectionKind (tag : Option String) (usual : Kind) : Kind :=
  match tag with
  | none => usual
  | some "!" => usual
  | some tag => .ofTag tag

/-! ## Collections -/

/-- Whether nothing is written before one of several tokens; a dash ends nothing inside it. -/
def orEmpty (ends : List Token) (read : Read Node) : Read Node := do
  if ← isNext ends then pure empty else read

/-- The value after its mark, or the empty node where there is no mark. -/
def valueOr (ends : List Token) (read : Read Node) : Read Node := do
  match ← peek with
  | .value => drop; orEmpty ends read
  | _ => pure empty

/-- Nothing is written after an anchor or a tag, of which one must be there. -/
def emptyContent (p : Properties) : Read Node :=
  if p.anchor.isSome || p.tag.isSome then pure (.scalar (scalarKind p.tag true "") "") else refuse

mutual

/-- The node that is next. Only outside brackets may it be a collection shown by columns, and only
as a key or value may it be a sequence at the column of its mapping. `fuel` bounds depth and
length. -/
def node (byColumns atMargin : Bool) : Nat → Read Node
  | 0 => refuse
  | fuel + 1 => do
    match ← peek with
    | .reference name => drop; named name
    | _ =>
      let p ← properties
      checkFree p.anchor
      let n ← content byColumns atMargin p fuel
      register p.anchor n
      pure n

/-- The node after its anchor and tag. -/
def content (byColumns atMargin : Bool) (p : Properties) : Nat → Read Node
  | 0 => refuse
  | fuel + 1 => do
    match ← peek with
    | .scalar plain s => drop; pure (.scalar (scalarKind p.tag plain s) s)
    | .flowSequenceStart =>
      drop
      return .sequence (collectionKind p.tag .sequence) (← flowItems true fuel)
    | .flowMappingStart =>
      drop
      return .mapping (collectionKind p.tag .mapping) (← flowEntries true fuel)
    | .blockEntry =>
      if atMargin then return .sequence (collectionKind p.tag .sequence) (← marginItems fuel)
      else emptyContent p
    | .blockSequenceStart =>
      if byColumns then
        drop
        return .sequence (collectionKind p.tag .sequence) (← blockItems fuel)
      else emptyContent p
    | .blockMappingStart =>
      if byColumns then
        drop
        return .mapping (collectionKind p.tag .mapping) (← blockEntries fuel)
      else emptyContent p
    | _ => emptyContent p

/-- The items of a sequence shown by columns. -/
def blockItems : Nat → Read (List Node)
  | 0 => refuse
  | fuel + 1 => do
    match ← peek with
    | .blockEntry =>
      drop
      let item ← orEmpty [.blockEntry, .blockEnd] (node true false fuel)
      return item :: (← blockItems fuel)
    | .blockEnd => drop; pure []
    | _ => refuse

/-- The items of a sequence at the column of its mapping, which nothing closes. -/
def marginItems : Nat → Read (List Node)
  | 0 => refuse
  | fuel + 1 => do
    match ← peek with
    | .blockEntry =>
      drop
      let item ← orEmpty [.blockEntry, .key, .value, .blockEnd] (node true false fuel)
      return item :: (← marginItems fuel)
    | _ => pure []

/-- The entries of a mapping shown by columns. -/
def blockEntries : Nat → Read (List (Node × Node))
  | 0 => refuse
  | fuel + 1 => do
    match ← peek with
    | .key =>
      drop
      let k ← orEmpty [.key, .value, .blockEnd] (node true true fuel)
      let v ← valueOr [.key, .value, .blockEnd] (node true true fuel)
      return (k, v) :: (← blockEntries fuel)
    | .blockEnd => drop; pure []
    | _ => refuse

/-- The items of a sequence between brackets. A key there begins a mapping of one entry. -/
def flowItems (isFirst : Bool) : Nat → Read (List Node)
  | 0 => refuse
  | fuel + 1 => do
    if ← isNext [.flowSequenceEnd] then drop; pure []
    else
      if !isFirst then expect .flowEntry
      match ← peek with
      | .flowSequenceEnd => drop; pure []
      | .key =>
        drop
        let k ← orEmpty [.value, .flowEntry, .flowSequenceEnd] (node false false fuel)
        let v ← valueOr [.flowEntry, .flowSequenceEnd] (node false false fuel)
        return .mapping .mapping [(k, v)] :: (← flowItems false fuel)
      | _ =>
        let item ← node false false fuel
        return item :: (← flowItems false fuel)

/-- The entries of a mapping between braces. A node without the mark of a key has no value. -/
def flowEntries (isFirst : Bool) : Nat → Read (List (Node × Node))
  | 0 => refuse
  | fuel + 1 => do
    if ← isNext [.flowMappingEnd] then drop; pure []
    else
      if !isFirst then expect .flowEntry
      match ← peek with
      | .flowMappingEnd => drop; pure []
      | .key =>
        drop
        let k ← orEmpty [.value, .flowEntry, .flowMappingEnd] (node false false fuel)
        let v ← valueOr [.flowEntry, .flowMappingEnd] (node false false fuel)
        return (k, v) :: (← flowEntries false fuel)
      | _ =>
        let k ← node false false fuel
        return (k, empty) :: (← flowEntries false fuel)

end

/-! ## Documents -/

/-- The handles that need no directive. -/
def usualHandles : List (String × String) :=
  [("!", "!"), ("!!", tagStem)]

/-- Read directives. A version is named once, and must be one of the first kind; a handle is named
once. -/
def directives : Nat → Bool → List (String × String) → Read (List (String × String))
  | 0, _, handles => pure handles
  | fuel + 1, hasVersion, handles => do
    match ← peek with
    | .directive .unknown => drop; directives fuel hasVersion handles
    | .directive (.version major) =>
      drop
      if hasVersion || major ≠ 1 then refuse else directives fuel true handles
    | .directive (.handle name stem) =>
      drop
      if (handles.lookup name).isSome then refuse
      else directives fuel hasVersion ((name, stem) :: handles)
    | _ => pure handles

/-- Past marks that end a document. -/
def dropEnds : Nat → Read Unit
  | 0 => pure ()
  | fuel + 1 => do
    match ← peek with
    | .documentEnd => drop; dropEnds fuel
    | _ => pure ()

/-- How many steps reading takes at most: a few for every token. -/
def bound : Read Nat := do
  return 4 * (← get).tokens.length + 4

/-- Whether a document begins with directives or a mark. -/
def beginsMarked : Token → Bool
  | .directive _ => true
  | .documentStart => true
  | _ => false

/-- Whether nothing of a document follows its mark. -/
def endsDocument : Token → Bool
  | .directive _ => true
  | .documentStart => true
  | .documentEnd => true
  | .streamEnd => true
  | _ => false

/-- The only document of a text, if there is one. -/
def document : Read (Option Node) := do
  let fuel ← bound
  let t ← peek
  if t = .streamEnd then pure none
  else
    if beginsMarked t then
      let handles ← directives fuel false []
      modify fun r => { r with handles := handles ++ usualHandles }
      expect .documentStart
    let n ← if beginsMarked t && endsDocument (← peek) then pure empty else node true false fuel
    dropEnds fuel
    expect .streamEnd
    pure (some n)

/-- The document of tokens. -/
def ofTokens? (ts : List Token) : Except Refusal (Option Node) :=
  (document.run ⟨ts, [], usualHandles⟩).map (·.1)

end Node

end TableAudit.Yaml
