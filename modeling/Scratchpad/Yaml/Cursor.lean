/-!
# Places in a text

A cursor is a place in a YAML text: what follows it, and its line and column, which decide about indentation.
-/

namespace Scratchpad.Yaml

/-! ## Characters -/

/-- A line break. -/
def isBreak (c : Char) : Bool :=
  c == '\n' || c == '\r' || c == '\x85' || c == '\u2028' || c == '\u2029'

/-- A space, a tab or a line break. -/
def isGap (c : Char) : Bool :=
  c == ' ' || c == '\t' || isBreak c

def isBlank (c : Char) : Bool :=
  c == ' ' || c == '\t'

/-- A character of an anchor's or a directive's name. -/
def isNameChar (c : Char) : Bool :=
  c.isAlphanum || c == '-' || c == '_'

/-- A character that a YAML text may contain. -/
def isAllowed (c : Char) : Bool :=
  c == '\t' || c == '\n' || c == '\r' || (' ' ≤ c && c ≤ '~') || c == '\x85' ||
    ('\xa0' ≤ c && c ≤ '\ufffd') || 0x10000 ≤ c.toNat

/-- The mark that may stand before the first character. -/
def byteOrderMark : Char := '\ufeff'

/-! ## Cursors -/

/-- A place in a text. -/
structure Cursor where
  rest : List Char
  index : Nat := 0
  line : Nat := 0
  column : Nat := 0
  deriving Repr

namespace Cursor

/-- The character at the cursor. -/
def peek? (c : Cursor) : Option Char :=
  c.rest.head?

/-- A character behind the cursor. -/
def peekAt? (c : Cursor) (n : Nat) : Option Char :=
  c.rest[n]?

/-- The cursor is at the end, or at a character of the kind. -/
def endsWith (c : Cursor) (kind : Char → Bool) : Bool :=
  c.peek?.all kind

/-- The cursor behind one character. -/
def advance (c : Cursor) : Cursor :=
  match c.rest with
  | [] => c
  | ch :: rest =>
    let ends := isBreak ch && !(ch == '\r' && rest.head? == some '\n')
    if ends then { rest, index := c.index + 1, line := c.line + 1, column := 0 }
    else { rest, index := c.index + 1, line := c.line, column := if ch == byteOrderMark then c.column else c.column + 1 }

/-- The cursor behind some characters. -/
def advanceBy (c : Cursor) : Nat → Cursor
  | 0 => c
  | n + 1 => c.advance.advanceBy n

/-- The characters of a kind at the cursor, and the cursor behind them. -/
def takeWhile (c : Cursor) (kind : Char → Bool) : List Char × Cursor :=
  let cs := c.rest.takeWhile kind
  (cs, c.advanceBy cs.length)

/-- The cursor behind the characters of a kind. -/
def skipWhile (c : Cursor) (kind : Char → Bool) : Cursor :=
  (c.takeWhile kind).2

/-- The cursor behind spaces, as far as column `column`. -/
def skipSpacesTo (c : Cursor) (column : Int) : Cursor :=
  c.advanceBy (min (c.rest.takeWhile (· == ' ')).length (column - c.column).toNat)

/-- The line break at the cursor: a line feed for the usual ones. -/
def takeBreak? (c : Cursor) : Option (Char × Cursor) :=
  match c.rest with
  | '\r' :: '\n' :: _ => some ('\n', c.advanceBy 2)
  | ch :: _ =>
    if ch == '\u2028' || ch == '\u2029' then some (ch, c.advance)
    else if isBreak ch then some ('\n', c.advance)
    else none
  | [] => none

/-- A line at the cursor begins or ends a document: three times the mark, and a gap. -/
def atMark (c : Cursor) (mark : Char) : Bool :=
  c.rest.take 3 == [mark, mark, mark] && (c.peekAt? 3).all isGap

/-- A line at the cursor begins or ends a document. -/
def atBoundary (c : Cursor) : Bool :=
  c.atMark '-' || c.atMark '.'

/-- The cursor behind spaces and a comment. -/
def skipComment (c : Cursor) : Cursor :=
  let c := c.skipWhile (· == ' ')
  if c.peek? == some '#' then c.skipWhile fun ch => !isBreak ch else c

/-- The cursor behind the rest of a line that holds spaces and a comment only. -/
def skipLine? (c : Cursor) : Option Cursor :=
  let c := c.skipComment
  match c.peek? with
  | none => some c
  | some _ => c.takeBreak?.map (·.2)

end Cursor

end Scratchpad.Yaml
