import Scratchpad.Text.Utf8
import Scratchpad.Yaml.Scalar

/-!
# Tokens

The tokens of a YAML text. Indentation is turned into tokens that begin and end block collections. A key needs no mark of
its own: a token that may turn out to be a key is kept in mind, by its place in the list of tokens, until a colon behind
it makes it one. `Token.ofText?` yields none for a text that is no YAML.
-/

namespace Scratchpad.Yaml

/-- A directive at the beginning of a document. -/
inductive Directive where
  /-- The version of the language, by its major number. -/
  | version (major : Nat)
  /-- What a tag's handle stands for. -/
  | tag (handle expansion : String)
  | other
  deriving DecidableEq, Repr

inductive Token where
  | directive (d : Directive)
  | documentStart | documentEnd
  | blockSequence | blockMapping | blockEnd
  | flowSequence | flowSequenceEnd
  | flowMapping | flowMappingEnd
  | blockEntry | flowEntry
  | key | value
  | alias (name : String)
  | anchor (name : String)
  | tag (handle : Option String) (suffix : String)
  | scalar (text : String) (isPlain : Bool)
  deriving DecidableEq, Repr

/-- A token that may turn out to be a key. -/
structure KeyCandidate where
  /-- Its place in the list of tokens. -/
  place : Nat
  /-- It has to be a key, or the text is no YAML. -/
  required : Bool
  index : Nat
  line : Nat
  column : Nat
  deriving Repr

/-- The state in which the tokens are read. -/
structure Reading where
  cursor : Cursor
  tokens : Array Token := #[]
  /-- The column of the innermost block collection. -/
  indent : Int := -1
  /-- The columns of those around it. -/
  outer : List Int := []
  /-- The flow collections that are open, each with its candidate for a key; the last entry is that of the block. -/
  flow : List (Option KeyCandidate) := [none]
  /-- A key may begin here. -/
  keyAllowed : Bool := true

/-- A step of reading. -/
abbrev Read := StateT Reading Option

namespace Read

/-! ## State -/

def push (t : Token) : Read Unit :=
  modify fun s => { s with tokens := s.tokens.push t }

def moveTo (c : Cursor) : Read Unit :=
  modify fun s => { s with cursor := c }

def allowKey (b : Bool) : Read Unit :=
  modify fun s => { s with keyAllowed := b }

def inFlow : Read Bool := do
  return 1 < (← get).flow.length

/-- Forgets the candidate of the innermost collection, which must not be one that has to be a key. -/
def dropCandidate : Read Unit := do
  let s ← get
  if (s.flow.head?.join).any (·.required) then failure
  set { s with flow := none :: s.flow.drop 1 }

/-- Notes the next token as a candidate for a key, if a key is allowed here. -/
def noteCandidate : Read Unit := do
  let s ← get
  if s.keyAllowed then
    dropCandidate
    let c := s.cursor
    let required := s.flow.length == 1 && s.indent == c.column
    let candidate : KeyCandidate := ⟨s.tokens.size, required, c.index, c.line, c.column⟩
    modify fun s => { s with flow := some candidate :: s.flow.drop 1 }

/-- No key is longer than this. -/
def longestKey : Nat := 1024

/-- Forgets the candidates that are on an earlier line or too far away. -/
def dropStale : Read Unit := do
  let s ← get
  let isStale (k : KeyCandidate) : Bool := k.line != s.cursor.line || longestKey < s.cursor.index - k.index
  if s.flow.any fun k => k.any fun k => isStale k && k.required then failure
  set { s with flow := s.flow.map (Option.filter fun k => !isStale k) }

/-- Ends the block collections that are indented further than a column. -/
def unwindTo (column : Int) : List Int → Read Unit
  | [] => pure ()
  | i :: outer => do
    if (← get).indent ≤ column then return ()
    push .blockEnd
    modify fun s => { s with indent := i, outer }
    unwindTo column outer

/-- Ends the block collections that are indented further than a column; inside brackets indentation does not count. -/
def unwind (column : Int) : Read Unit := do
  if ← inFlow then return ()
  unwindTo column (← get).outer

/-- Begins a block collection at a column, unless one of that column is open; yields whether it did. -/
def indentTo (column : Nat) : Read Bool := do
  let s ← get
  if s.indent < column then
    set { s with indent := column, outer := s.indent :: s.outer }
    return true
  else return false

/-- The cursor behind spaces, comments and line breaks. A key may begin on a new line, except inside brackets. -/
def skipGaps : Nat → Read Unit
  | 0 => failure
  | fuel + 1 => do
    let c := (← get).cursor.skipComment
    moveTo c
    match c.takeBreak? with
    | none => return ()
    | some (_, c) =>
      moveTo c
      if !(← inFlow) then allowKey true
      skipGaps fuel

/-! ## Directives -/

/-- A number at the cursor. -/
def number? (c : Cursor) : Option (Nat × Cursor) :=
  let (ds, c) := c.takeWhile Char.isDigit
  if ds.isEmpty then none else some (ds.foldl (fun n d => n * 10 + (d.toNat - 48)) 0, c)

/-- The cursor is at the end, a space or a line break. -/
def atSpace (c : Cursor) : Bool :=
  c.endsWith fun ch => ch == ' ' || isBreak ch

/-- A version at the cursor, by its major number. -/
def version? (c : Cursor) : Option (Nat × Cursor) := do
  let (major, c) ← number? (c.skipWhile (· == ' '))
  guard (c.peek? == some '.')
  let (_, c) ← number? c.advance
  guard (atSpace c)
  return (major, c)

/-- A tag's handle at the cursor: an exclamation mark, or a name between two. -/
def handle? (c : Cursor) : Option (String × Cursor) := do
  guard (c.peek? == some '!')
  if c.peekAt? 1 == some ' ' then return ("!", c.advance)
  let (name, c) := c.advance.takeWhile isNameChar
  guard (c.peek? == some '!')
  return (String.ofList ('!' :: name ++ ['!']), c.advance)

/-- A character of a tag. -/
def isTagChar (c : Char) : Bool :=
  c.isAlphanum || "-;/?:@&=+$,_.!~*\x27()[]%".toList.contains c

/-- The bytes that percent signs with two hexadecimal digits stand for. -/
def percentBytes? : List Char → Option (List UInt8 × List Char)
  | '%' :: a :: b :: r => do
    let n ← Scalar.hexNumber? [a, b]
    let (bs, r) ← percentBytes? r
    return (n.toUInt8 :: bs, r)
  | '%' :: _ => none
  | r => some ([], r)

/-- The characters of a tag with their escapes resolved. -/
def unescapeTag? : Nat → List Char → Option (List Char)
  | 0, _ => none
  | _, [] => some []
  | fuel + 1, c :: r =>
    if c == '%' then do
      let (bs, r) ← percentBytes? (c :: r)
      let s ← Text.Utf8.decode? bs
      return s.toList ++ (← unescapeTag? fuel r)
    else (unescapeTag? fuel r).map (c :: ·)

/-- The text of a tag at the cursor. -/
def tagText? (c : Cursor) : Option (String × Cursor) := do
  let (cs, c) := c.takeWhile isTagChar
  guard !cs.isEmpty
  let text ← unescapeTag? (cs.length + 1) cs
  return (String.ofList text, c)

/-- The directive at the cursor. -/
def directive? (c : Cursor) : Option (Directive × Cursor) := do
  let (name, c) := c.advance.takeWhile isNameChar
  guard (!name.isEmpty && atSpace c)
  let (d, c) ← match String.ofList name with
    | "YAML" => do
      let (major, c) ← version? c
      pure (Directive.version major, c)
    | "TAG" => do
      let (handle, c) ← handle? (c.skipWhile (· == ' '))
      guard (c.peek? == some ' ')
      let (expansion, c) ← tagText? (c.skipWhile (· == ' '))
      guard (atSpace c)
      pure (Directive.tag handle expansion, c)
    | _ => pure (Directive.other, c.skipWhile fun ch => !isBreak ch)
  return (d, ← c.skipLine?)

/-! ## Names and tags -/

/-- A name behind the mark of an anchor or alias. -/
def name? (c : Cursor) : Option (String × Cursor) := do
  let (cs, c) := c.advance.takeWhile isNameChar
  guard !cs.isEmpty
  guard (c.endsWith fun ch => isGap ch || "?:,]\x7d%@`".toList.contains ch)
  return (String.ofList cs, c)

/-- The tag at the cursor. -/
def tag? (c : Cursor) : Option (Token × Cursor) := do
  let (t, c) ← match c.peekAt? 1 with
    | some '<' => do
      let (suffix, c) ← tagText? (c.advanceBy 2)
      guard (c.peek? == some '>')
      pure (Token.tag none suffix, c.advance)
    | some ch =>
      if isGap ch then pure (Token.tag none "!", c.advance)
      else do
        let rest := (c.rest.drop 1).takeWhile fun ch => !(ch == ' ' || isBreak ch)
        let (handle, c) ← if rest.contains '!' then handle? c else pure ("!", c.advance)
        let (suffix, c) ← tagText? c
        pure (Token.tag (some handle) suffix, c)
    | none => pure (Token.tag none "!", c.advance)
  guard (atSpace c)
  return (t, c)

/-! ## Tokens -/

/-- Begins or ends a document. -/
def documentMark (t : Token) : Read Unit := do
  unwind (-1)
  dropCandidate
  allowKey false
  moveTo ((← get).cursor.advanceBy 3)
  push t

/-- Opens a flow collection. -/
def openFlow (t : Token) : Read Unit := do
  noteCandidate
  modify fun s => { s with flow := none :: s.flow, keyAllowed := true, cursor := s.cursor.advance }
  push t

/-- Closes a flow collection. -/
def closeFlow (t : Token) : Read Unit := do
  dropCandidate
  if !(← inFlow) then failure
  modify fun s => { s with flow := s.flow.drop 1, keyAllowed := false, cursor := s.cursor.advance }
  push t

/-- A mark of one character after which a key is allowed as given. -/
def mark (keyAllowed : Bool) (t : Token) : Read Unit := do
  allowKey keyAllowed
  dropCandidate
  moveTo (← get).cursor.advance
  push t

/-- Begins a block collection at the cursor if none of its column is open. A collection begins only where a key may. -/
def beginBlock (t : Token) : Read Unit := do
  let s ← get
  if !s.keyAllowed then failure
  if ← indentTo s.cursor.column then push t

/-- The mark of a sequence's entry. -/
def blockEntry : Read Unit := do
  if !(← inFlow) then beginBlock .blockSequence
  mark true .blockEntry

/-- The mark of a key. -/
def keyMark : Read Unit := do
  if !(← inFlow) then beginBlock .blockMapping
  mark (!(← inFlow)) .key

/-- Inserts a token before the one at a place. -/
def insertAt (place : Nat) (t : Token) : Read Unit :=
  modify fun s => { s with tokens := s.tokens.insertIdx! place t }

/-- The colon before a value: the candidate, if there is one, is a key. -/
def valueMark : Read Unit := do
  match (← get).flow.head?.join with
  | some k =>
    modify fun s => { s with flow := none :: s.flow.drop 1 }
    insertAt k.place .key
    if !(← inFlow) then
      if ← indentTo k.column then insertAt k.place .blockMapping
    allowKey false
    moveTo (← get).cursor.advance
    push .value
  | none =>
    if !(← inFlow) then beginBlock .blockMapping
    mark (!(← inFlow)) .value

/-- A token that may be a key. -/
def atom (read : Cursor → Option (Token × Cursor)) : Read Unit := do
  noteCandidate
  allowKey false
  let (t, c) ← read (← get).cursor
  moveTo c
  push t

/-- A scalar as a token. -/
def scalarToken (isPlain : Bool) (r : List Char × Cursor) : Token × Cursor :=
  (.scalar (String.ofList r.1) isPlain, r.2)

/-- A plain scalar. A key may follow it if it ends at the beginning of a line. -/
def plainScalar : Read Unit := do
  noteCandidate
  let s ← get
  let (text, fresh, c) := Scalar.plain (← inFlow) (s.indent + 1) s.cursor
  allowKey fresh
  moveTo c
  push (.scalar (String.ofList text) true)

/-- A block of lines. -/
def blockScalar : Read Unit := do
  allowKey true
  dropCandidate
  let s ← get
  let (t, c) ← scalarToken false <$> Scalar.block? s.indent s.cursor
  moveTo c
  push t

/-- A plain scalar can begin at the cursor. -/
def beginsPlain (inFlow : Bool) (c : Cursor) : Bool :=
  c.peek?.any fun ch =>
    !(isGap ch || "-?:,[]\x7b\x7d#&*!|>\x27\"%@`".toList.contains ch) ||
      (!(c.peekAt? 1).all isGap && (ch == '-' || (!inFlow && (ch == '?' || ch == ':'))))

/-- The token at the cursor. -/
def token (ch : Char) : Read Unit := do
  let s ← get
  let c := s.cursor
  let flow ← inFlow
  let atGap := (c.peekAt? 1).all isGap
  if ch == '%' && c.column == 0 then
    unwind (-1)
    dropCandidate
    allowKey false
    let (d, c) ← directive? c
    moveTo c
    push (.directive d)
  else if c.column == 0 && c.atMark '-' then documentMark .documentStart
  else if c.column == 0 && c.atMark '.' then documentMark .documentEnd
  else if ch == '[' then openFlow .flowSequence
  else if ch == '\x7b' then openFlow .flowMapping
  else if ch == ']' then closeFlow .flowSequenceEnd
  else if ch == '\x7d' then closeFlow .flowMappingEnd
  else if ch == ',' then mark true .flowEntry
  else if ch == '-' && atGap then blockEntry
  else if ch == '?' && (flow || atGap) then keyMark
  else if ch == ':' && (flow || atGap) then valueMark
  else if ch == '*' then atom fun c => (name? c).map fun (n, c) => (.alias n, c)
  else if ch == '&' then atom fun c => (name? c).map fun (n, c) => (.anchor n, c)
  else if ch == '!' then atom tag?
  else if (ch == '|' || ch == '>') && !flow then blockScalar
  else if ch == '\x27' || ch == '"' then atom fun c => scalarToken false <$> Scalar.quoted? c
  else if beginsPlain flow c then plainScalar
  else failure

/-- Reads the tokens up to the end. -/
def all : Nat → Read Unit
  | 0 => failure
  | fuel + 1 => do
    let before := (← get).cursor
    skipGaps (before.rest.length + 1)
    dropStale
    let c := (← get).cursor
    unwind c.column
    match c.peek? with
    | none =>
      unwind (-1)
      dropCandidate
    | some ch =>
      token ch
      all fuel

end Read

/-- The tokens of a text. -/
def Token.ofText? (text : List Char) : Option (List Token) :=
  if text.all isAllowed then
    let text := if text.head? == some byteOrderMark then text.drop 1 else text
    ((Read.all (2 * text.length + 2)).run { cursor := { rest := text } }).map fun r => r.2.tokens.toList
  else none

end Scratchpad.Yaml
