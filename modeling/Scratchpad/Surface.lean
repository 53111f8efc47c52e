import Scratchpad.Text.Lines
import Scratchpad.Text.Literal

/-!
# Surfaces

A surface is a named list of lines with a cursor, addressed by line index from zero. Every change goes through
`setLines`, which replaces a half-open range in one step. An index below zero counts from past the last line. A surface
is never without a line, and its cursor stands on one of its lines (`WellFormed`).
-/

namespace Scratchpad

/-- A named list of text lines with a cursor. -/
structure Surface where
  name : String
  lines : List String
  cursor : Nat
  deriving DecidableEq, Repr, Inhabited

namespace Surface

/-- The lines, or one empty line in place of none. -/
def orEmptyLine (lines : List String) : List String :=
  if lines.isEmpty then [""] else lines

/-- A surface with the given lines and the cursor on the first. -/
def ofLines (name : String) (lines : List String) : Surface :=
  ⟨name, orEmptyLine lines, 0⟩

/-- A surface with the lines of a text. -/
def ofText (name text : String) : Surface :=
  ofLines name (Text.splitLines text)

/-- There is a line, and the cursor is on one. -/
def WellFormed (s : Surface) : Prop :=
  s.lines ≠ [] ∧ s.cursor < s.lines.length

def lineCount (s : Surface) : Nat :=
  s.lines.length

/-- The whole text. -/
def text (s : Surface) : String :=
  Text.joinLines s.lines

/-- The surface in a few words. -/
def describe (s : Surface) : String :=
  "Surface(" ++ Text.Literal.ofText s.name ++ ", " ++ toString s.lineCount ++ " lines)"

/-- An index as a position between 0 and the line count; below zero it counts from past the last line. -/
def clamp (s : Surface) (i : Int) : Nat :=
  let i := if i < 0 then i + s.lineCount + 1 else i
  min i.toNat s.lineCount

/-- The line at an index; none for an index out of range. -/
def line? (s : Surface) (i : Int) : Option String :=
  if i < 0 then none else s.lines[i.toNat]?

/-- The lines in `[start, stop)`. -/
def getLines (s : Surface) (start stop : Int) : List String :=
  (s.lines.take (s.clamp stop)).drop (s.clamp start)

/-- Replaces the lines in `[start, stop)`; a range that ends before it starts is empty. -/
def setLines (s : Surface) (start stop : Int) (replacement : List String) : Surface :=
  let first := s.clamp start
  let past := max first (s.clamp stop)
  let lines := orEmptyLine (s.lines.take first ++ replacement ++ s.lines.drop past)
  { s with lines, cursor := min s.cursor (lines.length - 1) }

/-- Inserts lines before an index. -/
def insertLines (s : Surface) (pos : Int) (lines : List String) : Surface :=
  s.setLines pos pos lines

/-- Deletes the lines in `[start, stop)`. -/
def deleteLines (s : Surface) (start stop : Int) : Surface :=
  s.setLines start stop []

/-- Moves the cursor to a line, or to the nearest one there is. -/
def setCursor (s : Surface) (line : Int) : Surface :=
  { s with cursor := min line.toNat (s.lineCount - 1) }

end Surface

end Scratchpad
