/-!
# White space

The Unicode characters that separate words (`isSpace`), and what follows from them: a text without its surrounding
white space (`strip`) and the lines that count as empty (`isBlank`). A zero width space or a byte order mark is not
white space.
-/

namespace Scratchpad.Text

/-- The white space characters, as closed ranges of code points. -/
def spaceRanges : List (Nat × Nat) :=
  [(0x09, 0x0D), (0x1C, 0x20), (0x85, 0x85), (0xA0, 0xA0), (0x1680, 0x1680), (0x2000, 0x200A), (0x2028, 0x2029),
   (0x202F, 0x202F), (0x205F, 0x205F), (0x3000, 0x3000)]

/-- A character that separates words. -/
def isSpace (c : Char) : Bool :=
  spaceRanges.any fun r => r.1 ≤ c.toNat && c.toNat ≤ r.2

/-- The text from its first character that is not white space. -/
def stripLeft (cs : List Char) : List Char :=
  cs.dropWhile isSpace

/-- The text up to its last character that is not white space. -/
def stripRight (cs : List Char) : List Char :=
  (cs.reverse.dropWhile isSpace).reverse

/-- The text without the white space around it. -/
def strip (cs : List Char) : List Char :=
  stripRight (stripLeft cs)

/-- A line of white space only, the empty line included. -/
def isBlank (line : String) : Bool :=
  line.toList.all isSpace

end Scratchpad.Text
