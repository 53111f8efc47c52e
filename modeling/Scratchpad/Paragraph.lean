import Scratchpad.Text.Blank

/-!
# Paragraphs

The paragraph at a cursor is the run of lines around it that are not blank.
-/

namespace Scratchpad

/-- The number of lines that are not blank at the front. -/
def inkRun (lines : List String) : Nat :=
  (lines.takeWhile fun l => !Text.isBlank l).length

/-- The closed range of the paragraph at `cursor`; none if the cursor is not on a line or its line is blank. -/
def paragraph? (lines : List String) (cursor : Int) : Option (Nat × Nat) :=
  if cursor < 0 then none
  else
    let c := cursor.toNat
    match lines[c]? with
    | none => none
    | some line =>
      if Text.isBlank line then none
      else some (c - inkRun (lines.take c).reverse, c + inkRun (lines.drop (c + 1)))

end Scratchpad
