import Scratchpad.Text.Lines

/-!
# Settings

What a user can choose: the marks that begin the lines of a result, when a separator line or a `nil` is shown, whether
environments last, and how values are laid out. `Valid` states what every checked configuration satisfies; it makes the
role of a marked line readable from its text.
-/

namespace Scratchpad

/-- What a line of a result shows. -/
inductive Role where
  /-- Text that the snippet printed. -/
  | output
  /-- The first value. -/
  | result
  /-- A further value. -/
  | continuation
  /-- A failure. -/
  | error
  deriving DecidableEq, Repr

/-- The name of a role. -/
def Role.label : Role → String
  | output => "output"
  | result => "result"
  | continuation => "continuation"
  | error => "error"

/-- All roles, in the order in which their marks are compared. -/
def Role.all : List Role :=
  [.output, .result, .continuation, .error]

/-- The options of a session. -/
structure Settings where
  /-- The lines of a new scratch surface. -/
  intro : List String := ["-- Scratch buffer for Lua evaluation", ""]
  outputMark : String := "-- print: "
  resultMark : String := "-- => "
  continuationMark : String := "--    "
  errorMark : String := "-- Error: "
  /-- Show `nil` for a snippet that neither returns nor prints anything. -/
  showNil : Bool := true
  /-- Keep an empty line between a result and the code after it. -/
  separate : Bool := true
  /-- Keep the environment of a surface while the surface is open. -/
  persist : Bool := true
  /-- The name of a snippet in the messages of the language. -/
  chunkName : String := "luapad"
  indent : Nat := 2
  /-- The longest table that is shown on one line. -/
  inlineWidth : Nat := 72
  maxDepth : Option Nat := none
  deriving DecidableEq, Repr, Inhabited

namespace Settings

/-- The mark of a role. -/
def mark (s : Settings) : Role → String
  | .output => s.outputMark
  | .result => s.resultMark
  | .continuation => s.continuationMark
  | .error => s.errorMark

/-- A text begins with another one. -/
def startsWith (text start : String) : Bool :=
  start.toList.isPrefixOf text.toList

/-- A line of a result: it begins with a mark. An empty mark marks nothing. -/
def isNote (s : Settings) (line : String) : Bool :=
  line ≠ "" && Role.all.any fun r => s.mark r ≠ "" && startsWith line (s.mark r)

/-- Marks are not empty, and none begins another one. -/
def Valid (s : Settings) : Prop :=
  (∀ r, s.mark r ≠ "") ∧ (∀ r r', r ≠ r' → startsWith (s.mark r') (s.mark r) = false) ∧ s.chunkName ≠ ""

end Settings

end Scratchpad
