import Scratchpad.Command.Report

/-!
# The command

The outer layer: it reads the files that a request names, says what a report says, and passes the lines of a dialogue on
as they are entered.
-/

namespace Scratchpad.Command

/-- The bytes of a file, if it is there. -/
def contentOf? (name : String) : IO (Option (List UInt8)) := do
  try
    return some (← IO.FS.readBinFile name).toList
  catch
    | .noFileOrDirectory .. => return none
    | e => throw e

/-- The directory that holds the files a request names. -/
def directoryFor (r : Request) : IO Directory := do
  let names := (r.config.toList ++ r.file.toList).filter (· ≠ "")
  let files ← names.filterMapM fun name => do
    return (← contentOf? name).map fun bytes => (File.normalName name, bytes)
  return ⟨files⟩

/-- Says and writes what a report holds; yields the exit status. -/
def deliver (r : Report) : IO UInt32 := do
  IO.print r.output
  (← IO.getStdout).flush
  IO.eprint r.errors
  match r.written with
  | some (name, text) => IO.FS.writeFile name text
  | none => pure ()
  match r.ending with
  | .exit status => return status.toUInt32
  | .failed f =>
    IO.eprintln f.message
    return 1

/-- Holds a dialogue line by line. -/
partial def hold (r : Request) (d : Dialogue) : IO UInt32 := do
  IO.print Dialogue.prompt
  (← IO.getStdout).flush
  let line ← (← IO.getStdin).getLine
  if line = "" then deliver { output := linesText Dialogue.farewell }
  else
    let line := if line.endsWith "\n" then (line.dropEnd 1).toString else line
    let (answer, d) := d.turn line
    let log := logText r d.session
    match answer with
    | .ok (some shown) =>
      let _ ← deliver { output := linesText shown, errors := log }
      hold r d
    | .ok none => deliver { errors := log }
    | .error e => deliver { ending := .failed (.session e), errors := log }

/-- Answers a call of the command. -/
def serve (arguments : List String) : IO UInt32 := do
  match Request.ofArguments arguments with
  | .request r =>
    let dir ← directoryFor r
    match draftOf dir r, r.file.getD "" with
    | .ok d, "" =>
      match Dialogue.start d.toSettings with
      | .ok d =>
        let _ ← deliver (opening r d)
        hold r d
      | .error e => deliver { ending := .failed (.session e) }
    | _, _ => deliver (runRequest dir r "")
  | _ => deliver (run {} arguments "")

end Scratchpad.Command

/-- The command. -/
def main (arguments : List String) : IO UInt32 :=
  Scratchpad.Command.serve arguments
