import Scratchpad.Settings

/-!
# Results as lines

A block is the lines that show the outcome of an evaluation: what was printed, the values, or the error message, each
line behind the mark of its role. A text of several lines becomes as many lines of the block.
-/

namespace Scratchpad

/-- Where an evaluation failed. -/
inductive Stage where
  | compile | runtime
  deriving DecidableEq, Repr

/-- The name of a stage. -/
def Stage.label : Stage → String
  | compile => "compile"
  | runtime => "runtime"

/-- What came of evaluating a snippet. -/
inductive Outcome (α : Type) where
  | success (values : List α) (output : List String)
  | failure (stage : Stage) (message : String)
  deriving Repr

/-- A line of a result. -/
structure BlockLine where
  role : Role
  text : String
  deriving DecidableEq, Repr

/-- The lines of a result. -/
abbrev Block := List BlockLine

namespace Block

/-- The texts of the lines. -/
def lines (b : Block) : List String :=
  b.map BlockLine.text

/-- The lines of a text in a role. -/
def ofText (s : Settings) (role : Role) (text : String) : Block :=
  (Text.splitLines text).map fun l => ⟨role, s.mark role ++ l⟩

/-- The lines of the values: the first one is the result, the others continue it. -/
def ofValues (s : Settings) : List String → Block
  | [] => []
  | v :: vs => ofText s .result v ++ vs.flatMap (ofText s .continuation)

/-- The lines that show an outcome; `shown` is the text of a value. -/
def ofOutcome {α : Type} (s : Settings) (shown : α → String) : Outcome α → Block
  | .success values output =>
    output.flatMap (ofText s .output) ++
      if values.isEmpty && output.isEmpty && s.showNil then ofText s .result "nil"
      else ofValues s (values.map shown)
  | .failure _ message => ofText s .error message

end Block

end Scratchpad
