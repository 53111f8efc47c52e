import Scratchpad.Command.Request

/-!
# Usage

What the command says about itself: how it is called (`usage`), what its options mean (`help`), and why arguments were
refused (`complaint`).
-/

namespace Scratchpad.Request

/-- The name of the command. -/
def commandName : String := "luapad"

/-- How the command is called. -/
def usage : List String :=
  ["usage: " ++ commandName ++ " [-h] [--line N | --block N | --range A B] [--config CONFIG]",
   "              [--in-place] [--verbose]",
   "              [file]"]

/-- The command, its arguments and what they mean. -/
def help : List String :=
  usage ++
  ["",
   "Evaluate Lua scratch files in place.",
   "",
   "positional arguments:",
   "  file             Lua file to evaluate; omit for the interactive loop",
   "",
   "options:",
   "  -h, --help       show this help message and exit",
   "  --line N         evaluate line N (1-based)",
   "  --block N        evaluate the block around line N (1-based)",
   "  --range A B      evaluate lines A..B (1-based, inclusive)",
   "  --config CONFIG  YAML configuration file",
   "  --in-place       write the annotated file back",
   "  --verbose        log debug information to stderr"]

/-- What is said when arguments are refused. -/
def complaint (r : Refusal) : List String :=
  usage ++ [commandName ++ ": error: " ++ r.message]

end Scratchpad.Request
