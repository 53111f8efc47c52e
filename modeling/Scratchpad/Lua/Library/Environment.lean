import Scratchpad.Lua.Library.Argument

/-!
# Functions of environments

An environment is a table for the global variables of a program. It reads what it lacks from the globals and keeps what
is written to it. While a program runs, the environment's `print` records the lines that are printed.
-/

namespace Scratchpad.Lua.Library

open Scratchpad.Lua.Comp Operation

/-- The chunk of the functions that environments get, as messages name it. -/
def environmentChunk : Bytes :=
  bytes "[string \"<python>\"]"

/-- The line on which an environment writes to itself. -/
def writeLine : Nat := 15

/-- The line on which programs are called. -/
def callLine : Nat := 31

/-- The line on which the text of a printed value is made. -/
def printLine : Nat := 39

/-- Looks a name up in the globals. -/
def readThrough (args : List Value) : Comp (List Value) :=
  read fun s => [s.rawGet Store.globals (args.getD 1 .nil)]

/-- Sets an entry of a table itself. -/
def writeLocal (args : List Value) : Comp (List Value) := do
  match args.headD .nil with
  | .table id =>
    rawSet .native id (args.getD 1 .nil) (args.getD 2 .nil)
    return []
  | v =>
    let t ← read fun s => s.typeText v
    failAt ⟨environmentChunk, writeLine⟩ (bytes "bad argument #1 to 'rawset' (table expected, got " ++ t ++ bytes ")")

/-- Texts with tabs between them. -/
def joinTabs : List Bytes → Bytes
  | [] => []
  | [t] => t
  | t :: u :: ts => t ++ 9 :: joinTabs (u :: ts)

/-- Records a line, if the evaluation is still the running one. -/
def capture (run : Nat) (args : List Value) : Comp (List Value) := do
  let texts ← args.mapM fun v =>
    toText .native v (failAt ⟨environmentChunk, printLine⟩ (bytes "'__tostring' must return a string"))
  update fun s => if s.run = run then { s with printed := joinTabs texts :: s.printed } else s
  return []

end Scratchpad.Lua.Library
