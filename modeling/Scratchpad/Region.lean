import Scratchpad.Block
import Scratchpad.Surface
import Scratchpad.Text.Blank

/-!
# The lines after a region

Before a region is evaluated again, the block of its last run is removed (`removeStale`); afterwards the new block is
put in its place (`insertBlock`), with an empty line behind it where code would follow at once.
-/

namespace Scratchpad

/-- The length of the block at the front of some lines: its notes and the one separator line behind them. -/
def staleLength (s : Settings) : List String → Nat
  | [] => 0
  | l :: rest =>
    if l = "" then (if s.separate then 1 else 0)
    else if s.isNote l then staleLength s rest + 1
    else 0

/-- A note stands right after line `last`. -/
def noteFollows (s : Settings) (surface : Surface) (last : Int) : Bool :=
  (surface.line? (last + 1)).any s.isNote

/-- Deletes the block right after line `last`; yields the number of lines deleted. -/
def removeStale (s : Settings) (surface : Surface) (last : Int) : Nat × Surface :=
  if last < -1 then (0, surface)
  else
    let first := last + 1
    let n := staleLength s (surface.lines.drop first.toNat)
    if n = 0 then (0, surface) else (n, surface.deleteLines first (first + n))

/-- Inserts a block before line `pos`, with a separator line unless a blank line follows; yields the number of lines
inserted and whether the separator is one of them. -/
def insertBlock (s : Settings) (surface : Surface) (pos : Int) (block : Block) : Nat × Bool × Surface :=
  let separator := s.separate && !(surface.line? pos).any Text.isBlank
  let payload := block.lines ++ (if separator then [""] else [])
  (payload.length, separator, surface.insertLines pos payload)

end Scratchpad
