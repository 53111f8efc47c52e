import Scratchpad.Command.Annotation
import Scratchpad.Command.Usage
import Scratchpad.Dialogue
import Scratchpad.Log
import Scratchpad.Settings.File

/-!
# Reports

What a call of the command does, as a value: its ending, what it says on its two channels, and the file that it writes.
`Command.run` computes it from the arguments, the files there are, and the text that the user enters.
-/

namespace Scratchpad

/-- A failure that the command has no answer to. -/
inductive Failure where
  | malformedText (m : Text.Utf8.Malformed)
  | call (e : CallError)
  | session (e : SessionError)
  deriving Repr

/-- The wording of a failure. -/
def Failure.message : Failure → String
  | malformedText m => m.message
  | call e => e.message
  | session e => e.message

/-- How a call of the command ends. -/
inductive Ending where
  | exit (status : Nat)
  | failed (f : Failure)
  deriving Repr

/-- What a call of the command does. -/
structure Report where
  ending : Ending := .exit 0
  output : String := ""
  /-- What is said about errors, and the log. -/
  errors : String := ""
  /-- The file that is written, with its text. -/
  written : Option (String × String) := none
  deriving Repr

namespace Command

/-- The text of some lines, each with its end. -/
def linesText (lines : List String) : String :=
  String.join (lines.map (· ++ "\n"))

/-- The report of a call that ends with an error message. -/
def refuse (status : Nat) (message : String) : Report :=
  { ending := .exit status, errors := linesText ["Error: " ++ message] }

/-- The log of a session as text, if it is to be shown. -/
def logText (r : Request) (s : Session) : String :=
  if r.verbose then linesText (s.log.reverse.map LogEntry.line) else ""

/-- The draft that a request asks for. An empty name asks for none. -/
def draftOf (dir : Directory) (r : Request) : Except LoadError Draft :=
  match r.config with
  | none => .ok .default
  | some name => if name = "" then .ok .default else Draft.ofFile name (dir.find? name)

/-- The report of a configuration that cannot be used. -/
def refuseConfig : LoadError → Report
  | .malformedText m => { ending := .failed (.malformedText m) }
  | .draft (.call e) => { ending := .failed (.call e) }
  | .draft (.settings e) => refuse 2 e.message

/-! ## Files -/

/-- Evaluates a file and shows it, or writes it back. -/
def runFile (dir : Directory) (r : Request) (settings : Settings) (name : String) : Report :=
  match File.read (dir.find? name) with
  | .error .missing => refuse 1 ("file not found: " ++ name)
  | .error (.malformed m) => { ending := .failed (.malformedText m) }
  | .ok source =>
    match (Session.annotate name source r.target).run.run { settings } with
    | (.error e, s) => { ending := .failed (.session e), errors := logText r s }
    | (.ok text, s) =>
      if r.inPlace then { errors := logText r s, written := some (File.normalName name, text) }
      else { output := text, errors := logText r s }

/-! ## Dialogues -/

/-- What the log says when a dialogue begins to wait for lines. -/
def waitingNote : String := "asyncio: Using selector: EpollSelector"

/-- The report with more said. -/
def say (r : Report) (output errors : String) : Report :=
  { r with output := r.output ++ output, errors := r.errors ++ errors }

/-- What is said before the first line is asked for. -/
def opening (r : Request) (d : Dialogue) : Report :=
  { output := linesText Dialogue.greeting,
    errors := (if r.verbose then linesText [waitingNote] else "") ++ logText r d.session }

/-- Holds a dialogue over the lines that are entered. -/
def converse (r : Request) (d : Dialogue) (said : Report) : List String → Report
  | [] => say said (Dialogue.prompt ++ linesText Dialogue.farewell) ""
  | line :: lines =>
    let (answer, d) := d.turn line
    let log := logText r d.session
    match answer with
    | .ok (some shown) => converse r d (say said (Dialogue.prompt ++ linesText shown) log) lines
    | .ok none => say said Dialogue.prompt log
    | .error e => { say said Dialogue.prompt log with ending := .failed (.session e) }

/-- The lines of what the user enters; the last one need not be ended. -/
def enteredLines (input : String) : List String :=
  let lines := Text.splitLines input
  if lines.getLast? = some "" then lines.dropLast else lines

/-- Holds a dialogue. -/
def runDialogue (r : Request) (settings : Settings) (input : String) : Report :=
  match Dialogue.start settings with
  | .error e => { ending := .failed (.session e), output := linesText Dialogue.greeting }
  | .ok d => converse r d (opening r d) (enteredLines input)

/-! ## Calls -/

/-- Does what a request asks for. -/
def runRequest (dir : Directory) (r : Request) (input : String) : Report :=
  match draftOf dir r with
  | .error e => refuseConfig e
  | .ok d =>
    match r.file with
    | none => runDialogue r d.toSettings input
    | some name => if name = "" then runDialogue r d.toSettings input else runFile dir r d.toSettings name

/-- What a call of the command with some arguments does. -/
def run (dir : Directory) (arguments : List String) (input : String) : Report :=
  match Request.ofArguments arguments with
  | .help => { output := linesText Request.help }
  | .refused e => { ending := .exit 2, errors := linesText (Request.complaint e) }
  | .request r => runRequest dir r input

end Command

end Scratchpad
