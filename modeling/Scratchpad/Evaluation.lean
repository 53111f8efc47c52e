import Scratchpad.Block
import Scratchpad.Interpreter
import Scratchpad.Snippet

/-!
# Evaluation

A snippet is compiled as an expression if that is possible, and otherwise as statements, extended so that the variables
it declares last. While it runs, the environment's `print` records the lines; afterwards what `print` was before is put
back, unless the snippet has changed it.
-/

namespace Scratchpad

open Lua

/-- How snippets are evaluated. -/
structure Evaluator where
  /-- The name of a snippet in messages. -/
  chunkName : String := "luapad"
  /-- The variable that holds the environment. -/
  envName : String := "_ENV"

/-- What the evaluation of a snippet says to the log. -/
inductive EvaluationNote where
  | madeLasting (report : String)
  | compileFailed (message : String)
  deriving DecidableEq, Repr

namespace Evaluator

/-- Compiles a snippet. -/
def compile (e : Evaluator) (i : Interpreter) (env : Nat) (code : String) :
    Except String Lua.Value × Interpreter × List EvaluationNote :=
  match i.compile ("return " ++ code) e.chunkName (.table env) with
  | (.ok f, i) => (.ok f, i, [])
  | (.error _, i) =>
    let report := ((Snippet.shape code).report?.map EvaluationNote.madeLasting).toList
    match i.compile (Snippet.lasting e.envName code) e.chunkName (.table env) with
    | (.ok f, i) => (.ok f, i, report)
    | (.error message, i) => (.error message, i, report ++ [.compileFailed message])

/-- Runs a function while the environment's `print` records lines; yields the outcome of the call and the lines. -/
def runCaptured (i : Interpreter) (env : Nat) (f : Lua.Value) : (Bool × List Lua.Value) × List String × Interpreter :=
  let n := i.evaluations + 1
  let previous := i.store.rawGet env Interpreter.printKey
  let capture := Lua.Value.builtin (.capture n)
  let store := { i.store.rawSet env Interpreter.printKey capture with run := n, printed := [] }
  let (r, i) := { i with store, evaluations := n }.protect f
  let lines := i.store.printed.reverse.map Text.Utf8.toStringLossy
  let store :=
    if (i.store.rawGet env Interpreter.printKey).rawEq capture then i.store.rawSet env Interpreter.printKey previous
    else i.store
  (r, lines, { i with store })

/-- The outcome of a failed run: the error itself if it is a text, and else its text. -/
def failure (i : Interpreter) (error : Lua.Value) : Except Fault (Outcome Inspect.Value) × Interpreter :=
  match i.shown error with
  | .text s => (.ok (.failure .runtime s), i)
  | _ =>
    let (r, i) := i.textOf (i.outward error)
    (r.map fun s => .failure .runtime s, i)

/-- Evaluates a snippet in an environment. -/
def evaluate (e : Evaluator) (i : Interpreter) (env : Nat) (code : String) :
    Except Fault (Outcome Inspect.Value) × Interpreter × List EvaluationNote :=
  match e.compile i env code with
  | (.error message, i, notes) => (.ok (.failure .compile message), i, notes)
  | (.ok f, i, notes) =>
    match runCaptured i env f with
    | ((true, vs), lines, i) => (.ok (.success (vs.map i.shown) lines), i, notes)
    | ((false, vs), _, i) =>
      let (r, i) := failure i (Operation.first vs)
      (r, i, notes)

end Evaluator

end Scratchpad
