import Scratchpad.Yaml.Tag
import Scratchpad.Yaml.Token

/-!
# Nodes

A YAML text as a tree: scalars, sequences and maps, each with its tag. `Node.ofTokens?` reads the tree of the only
document of a text; an alias is replaced by the node that it names.
-/

namespace Scratchpad.Yaml

inductive Node where
  | scalar (tag : Tag) (text : String)
  | sequence (tag : Tag) (items : List Node)
  | mapping (tag : Tag) (entries : List (Node × Node))
  deriving Repr

namespace Node

def tag : Node → Tag
  | scalar t _ => t
  | sequence t _ => t
  | mapping t _ => t

/-- The scalar that stands where nothing is written. -/
def empty : Node :=
  scalar .null ""

/-- What a tree is read from: the tokens that are left, the nodes that have names, and what handles of tags stand
for. -/
structure Source where
  tokens : List Token
  anchors : List (String × Node) := []
  handles : List (String × String) := []

/-- A step of reading. -/
abbrev Grow := StateT Source Option

/-! ## Tokens -/

def peek? : Grow (Option Token) := do
  return (← get).tokens.head?

def skip : Grow Unit :=
  modify fun s => { s with tokens := s.tokens.drop 1 }

/-- The next token is one of a list. -/
def atOne (ts : List Token) : Grow Bool := do
  return (← peek?).any ts.contains

/-- The next token, which must be as given. -/
def expect (t : Token) : Grow Unit := do
  if (← peek?) == some t then skip else failure

/-- Skips a token if it is the next one, and yields whether it was. -/
def skipIf (t : Token) : Grow Bool := do
  if (← peek?) == some t then
    skip
    return true
  else return false

/-! ## Properties of nodes -/

/-- The properties before a node: its name, and its tag as it is written. -/
structure Properties where
  anchor : Option String := none
  tag : Option String := none

/-- The full text of a tag. -/
def tagText (handle : Option String) (suffix : String) : Grow String := do
  match handle with
  | none => return suffix
  | some h =>
    match (← get).handles.lookup h with
    | some p => return p ++ suffix
    | none => failure

/-- The name before a node, if there is one. -/
def anchorName? : Grow (Option String) := do
  match ← peek? with
  | some (.anchor n) =>
    skip
    return some n
  | _ => return none

/-- The tag before a node, if there is one. -/
def writtenTag? : Grow (Option String) := do
  match ← peek? with
  | some (.tag h s) =>
    skip
    return some (← tagText h s)
  | _ => return none

/-- The properties before a node, in either order. -/
def properties : Grow Properties := do
  let anchor ← anchorName?
  let tag ← writtenTag?
  let anchor ← if anchor.isNone then anchorName? else pure anchor
  return { anchor, tag }

namespace Properties

/-- The tag `!` asks for what the node would have without a tag. -/
def ownTag? (p : Properties) : Option Tag :=
  p.tag.bind fun t => if t == "!" then none else some (.ofName t)

/-- The tag of a collection. -/
def collectionTag (p : Properties) (default : Tag) : Tag :=
  p.ownTag?.getD default

/-- The tag of a scalar; a quoted one is a string unless it has a tag. -/
def scalarTag (p : Properties) (text : String) (isPlain : Bool) : Tag :=
  p.ownTag?.getD (if isPlain || p.tag.isSome then .ofPlain text else .str)

def isEmpty (p : Properties) : Bool :=
  p.anchor.isNone && p.tag.isNone

end Properties

/-- Gives a node a name. -/
def bind (anchor : Option String) (n : Node) : Grow Unit :=
  match anchor with
  | none => pure ()
  | some a => modify fun s => { s with anchors := (a, n) :: s.anchors }

/-- A name must be new. -/
def checkNew (anchor : Option String) : Grow Unit := do
  let known := (← get).anchors
  if anchor.any fun a => (known.lookup a).isSome then failure

/-- Reads a collection; inside it its name stands for `first`. -/
def named (anchor : Option String) (first : Node) (read : Grow Node) : Grow Node := do
  bind anchor first
  let n ← read
  bind anchor n
  return n

/-! ## Nodes -/

/-- The tokens before which the key or value of a block mapping is empty. -/
def blockStops : List Token := [.key, .value, .blockEnd]

/-- The tokens before which a part of an entry in a flow sequence is empty. -/
def sequenceStops : List Token := [.flowEntry, .flowSequenceEnd]

/-- The tokens before which a part of an entry in a flow mapping is empty. -/
def mappingStops : List Token := [.flowEntry, .flowMappingEnd]

mutual

/-- Reads a node; `block` allows block collections and `indentless` a sequence that is not indented. -/
def node (block indentless : Bool) : Nat → Grow Node
  | 0 => failure
  | fuel + 1 => do
    match ← peek? with
    | some (.alias n) =>
      skip
      match (← get).anchors.lookup n with
      | some v => return v
      | none => failure
    | _ =>
      let p ← properties
      checkNew p.anchor
      let seqTag := p.collectionTag .seq
      let mapTag := p.collectionTag .map
      let sequence (items : Grow (List Node)) : Grow Node :=
        named p.anchor (.sequence seqTag []) do return .sequence seqTag (← items)
      let mapping (entries : Grow (List (Node × Node))) : Grow Node :=
        named p.anchor (.mapping mapTag []) do return .mapping mapTag (← entries)
      match ← peek? with
      | some .blockEntry => if indentless then sequence (indentlessItems fuel) else emptyNode p
      | some (.scalar text isPlain) =>
        skip
        let n := Node.scalar (p.scalarTag text isPlain) text
        bind p.anchor n
        return n
      | some .flowSequence =>
        skip
        sequence (flowItems true fuel)
      | some .flowMapping =>
        skip
        mapping (flowEntries true fuel)
      | some .blockSequence =>
        if block then
          skip
          sequence (blockItems fuel)
        else emptyNode p
      | some .blockMapping =>
        if block then
          skip
          mapping (blockEntries fuel)
        else emptyNode p
      | _ => emptyNode p

/-- The empty node that has properties only. -/
def emptyNode (p : Properties) : Grow Node := do
  if p.isEmpty then failure
  let n := Node.scalar (p.scalarTag "" true) ""
  bind p.anchor n
  return n

/-- Reads a node, or the empty one before some tokens. -/
def nodeUnless (stops : List Token) (block indentless : Bool) : Nat → Grow Node
  | 0 => failure
  | fuel + 1 => do
    if ← atOne stops then return .empty else node block indentless fuel

/-- The items of a block sequence. -/
def blockItems : Nat → Grow (List Node)
  | 0 => failure
  | fuel + 1 => do
    if ← skipIf .blockEntry then
      let n ← nodeUnless [.blockEntry, .blockEnd] true false fuel
      return n :: (← blockItems fuel)
    else
      expect .blockEnd
      return []

/-- The items of a sequence that is not indented. -/
def indentlessItems : Nat → Grow (List Node)
  | 0 => failure
  | fuel + 1 => do
    if ← skipIf .blockEntry then
      let n ← nodeUnless (.blockEntry :: blockStops) true false fuel
      return n :: (← indentlessItems fuel)
    else return []

/-- The entries of a block mapping. -/
def blockEntries : Nat → Grow (List (Node × Node))
  | 0 => failure
  | fuel + 1 => do
    if ← skipIf .key then
      let k ← nodeUnless blockStops true true fuel
      let v ← if ← skipIf .value then nodeUnless blockStops true true fuel else pure .empty
      return (k, v) :: (← blockEntries fuel)
    else
      expect .blockEnd
      return []

/-- The items of a flow sequence; an item with a key is a mapping of one entry. -/
def flowItems (isFirst : Bool) : Nat → Grow (List Node)
  | 0 => failure
  | fuel + 1 => do
    if ← skipIf .flowSequenceEnd then return []
    if !isFirst then expect .flowEntry
    if ← skipIf .key then
      let k ← nodeUnless (.value :: sequenceStops) false false fuel
      let v ← if ← skipIf .value then nodeUnless sequenceStops false false fuel else pure .empty
      return .mapping .map [(k, v)] :: (← flowItems false fuel)
    else if ← skipIf .flowSequenceEnd then return []
    else
      let n ← node false false fuel
      return n :: (← flowItems false fuel)

/-- The entries of a flow mapping. -/
def flowEntries (isFirst : Bool) : Nat → Grow (List (Node × Node))
  | 0 => failure
  | fuel + 1 => do
    if ← skipIf .flowMappingEnd then return []
    if !isFirst then expect .flowEntry
    if ← skipIf .key then
      let k ← nodeUnless (.value :: mappingStops) false false fuel
      let v ← if ← skipIf .value then nodeUnless mappingStops false false fuel else pure .empty
      return (k, v) :: (← flowEntries false fuel)
    else if ← skipIf .flowMappingEnd then return []
    else
      let k ← node false false fuel
      return (k, .empty) :: (← flowEntries false fuel)

end

/-! ## Documents -/

/-- What handles of tags stand for without directives. -/
def defaultHandles : List (String × String) :=
  [("!", "!"), ("!!", Tag.standard)]

/-- Reads directives; the truth value tells whether the version was given already. -/
def directives : Bool → List Token → Grow Unit
  | versioned, .directive d :: ts => do
    skip
    match d with
    | .version major =>
      if versioned || major ≠ 1 then failure
      directives true ts
    | .tag handle expansion =>
      if ((← get).handles.lookup handle).isSome then failure
      modify fun s => { s with handles := (handle, expansion) :: s.handles }
      directives versioned ts
    | .other => directives versioned ts
  | _, _ => pure ()

/-- Skips the ends of documents. -/
def skipEnds : List Token → Grow Unit
  | .documentEnd :: ts => do
    skip
    skipEnds ts
  | _ => pure ()

/-- The document that begins here behind directives and its mark. -/
def explicitDocument (fuel : Nat) : Grow Node := do
  directives false (← get).tokens
  modify fun s => { s with handles := s.handles ++ defaultHandles }
  expect .documentStart
  match ← peek? with
  | none => return .empty
  | some (.directive _) => return .empty
  | some .documentStart => return .empty
  | some .documentEnd => return .empty
  | _ => node true false fuel

/-- The only document, if there is one. -/
def document? (fuel : Nat) : Grow (Option Node) := do
  let n ← match ← peek? with
    | none => return none
    | some (.directive _) => explicitDocument fuel
    | some .documentStart => explicitDocument fuel
    | _ => do
      modify fun s => { s with handles := defaultHandles }
      node true false fuel
  skipEnds (← get).tokens
  if (← peek?).isSome then failure
  return some n

/-- The tree of the only document; `some none` for a text without one. -/
def ofTokens? (tokens : List Token) : Option (Option Node) :=
  -- every token begins at most two nested readers
  ((document? (4 * tokens.length + 8)).run { tokens }).map (·.1)

end Node

end Scratchpad.Yaml
