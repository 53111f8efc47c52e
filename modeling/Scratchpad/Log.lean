import Scratchpad.Session

/-!
# The log

The entries of a session's log as lines of text. Each line begins with the name of the part that speaks.
-/

namespace Scratchpad.LogEntry

/-- The part of the program that an entry comes from. -/
def speaker : LogEntry → String
  | createdEnvironment _ => "luapad.luapad_environment"
  | resetEnvironment _ => "luapad.luapad_environment"
  | evaluation (.madeLasting _) => "luapad.luapad_transformer"
  | evaluation (.compileFailed _) => "luapad.luapad_evaluator"
  | removedNotes _ _ => "luapad.luapad_runtime"
  | evaluatedLines _ _ _ _ => "luapad.luapad_runtime"

/-- What an entry says. -/
def message : LogEntry → String
  | createdEnvironment id => "created environment for surface " ++ id.describe
  | resetEnvironment id => "reset environment for surface " ++ id.describe
  | evaluation (.madeLasting report) => report
  | evaluation (.compileFailed m) => "compile failed: " ++ m
  | removedNotes n s => "removed " ++ toString n ++ " stale annotation line(s) from " ++ s
  | evaluatedLines s first last n =>
    s ++ ": evaluated lines " ++ toString first ++ "-" ++ toString last ++ ", inserted " ++ toString n

/-- The line of an entry. -/
def line (e : LogEntry) : String :=
  e.speaker ++ ": " ++ e.message

end Scratchpad.LogEntry
