import Scratchpad.Session

/-!
# Dialogues

A dialogue holds a session with one scratch surface. A line that the user enters is a request to the dialogue itself, or
code that is put at the end of the surface and evaluated there (`Dialogue.answer`).
-/

namespace Scratchpad

/-- What a line asks for. -/
inductive Entry where
  | nothing
  | quit
  | reset
  | showSurface
  | code (line : String)
  deriving DecidableEq, Repr

/-- What a line asks for; white space around a request is of no account. -/
def Entry.ofLine (line : String) : Entry :=
  let word := String.ofList (Text.strip line.toList)
  if word = "" then nothing
  else if word = "exit" then quit
  else if word = ":reset" then reset
  else if word = ":show" then showSurface
  else code line

/-- A session that is held line by line on one surface. -/
structure Dialogue where
  session : Session
  surface : SurfaceId

namespace Dialogue

/-- What is said first. -/
def greeting : List String :=
  ["luapad v0.1",
   "Type 'exit' or press Ctrl+D to quit. ':reset' clears bindings, ':show' prints the surface."]

/-- What is said before each line. -/
def prompt : String := ">> "

/-- What is said when no line comes any more. -/
def farewell : List String := ["", "Exiting."]

/-- Opens a scratch surface that holds one empty line. -/
def start (s : Settings) : Except SessionError Dialogue :=
  match ((Session.openScratch false).run.run { settings := { s with intro := [""] } }) with
  | (.ok id, session) => .ok ⟨session, id⟩
  | (.error e, _) => .error e

/-- Where the next line of code goes: behind the last line, or in the place of the only line if it is empty. -/
def nextIndex (s : Surface) : Nat :=
  if s.lines = [""] then 0 else s.lineCount

/-- Puts a line of code on a surface and evaluates it; yields the lines of its result that are not empty. -/
def evaluate (id : SurfaceId) (line : String) : Session.Action (List String) := do
  let i ← Session.edit id fun s => (nextIndex s, s.setLines (nextIndex s) (nextIndex s + 1) [line])
  let inserted ← Session.evaluateLine id i
  let s ← Session.surface id
  return (s.getLines (i + 1) (i + 1 + inserted)).filter (· ≠ "")

/-- What an entry is answered with; none if it ends the dialogue. -/
def answer (id : SurfaceId) : Entry → Session.Action (Option (List String))
  | .nothing => return some []
  | .quit => return none
  | .reset => do
    Session.resetEnvironment (some id)
    return some ["environment reset"]
  | .showSurface => do return some [(← Session.surface id).text]
  | .code line => do return some (← evaluate id line)

/-- One turn of the dialogue: a line and what it is answered with. The log holds the entries of this turn only. -/
def turn (d : Dialogue) (line : String) : Except SessionError (Option (List String)) × Dialogue :=
  let (r, session) := (answer d.surface (.ofLine line)).run.run { d.session with log := [] }
  (r, { d with session })

end Dialogue

end Scratchpad
