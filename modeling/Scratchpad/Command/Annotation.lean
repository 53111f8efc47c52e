import Scratchpad.Command.Request
import Scratchpad.File
import Scratchpad.Session

/-!
# Annotated files

A file is evaluated as one surface, as a whole or in part, and comes out with its results on it. The line feed at its
end, if there is one, belongs to the file and not to the surface.
-/

namespace Scratchpad.Session

/-- Evaluates a part of a surface. -/
def evaluateTarget (id : SurfaceId) : Target → Action Nat
  | .whole => evaluateSurface id
  | .line n => evaluateLine id (n - 1)
  | .block n => evaluateBlock id (n - 1)
  | .range a b => evaluateSelection id (a - 1) (b - 1)

/-- The text without the line feed at its end, and whether there is one. -/
def splitFinalNewline (source : String) : String × Bool :=
  if source.toList.getLast? = some '\n' then (String.ofList source.toList.dropLast, true) else (source, false)

/-- Evaluates a part of the text of the file `name`; yields the text with the result on it. -/
def annotate (name source : String) (target : Target) : Action String := do
  let (text, newline) := splitFinalNewline source
  let id ← attach (.ofText (File.normalName name) text) none
  let _ ← evaluateTarget id target
  return (← surface id).text ++ (if newline then "\n" else "")

end Scratchpad.Session
