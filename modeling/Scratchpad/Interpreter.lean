import Scratchpad.Inspect.Value
import Scratchpad.Lua.Machine
import Scratchpad.Lua.Parser

/-!
# The interpreter

The state that lasts between the programs that are run: the objects, the coroutines, and how many environments and
evaluations there were. Programs are compiled for an environment and run so that their errors are caught (`protect`);
the other operations can fail with a `Fault`.

Values are shown to the outside as `Inspect.Value`s. Strings are texts there if they are well-formed UTF-8, and a
coroutine that was never resumed is shown as its function.
-/

namespace Scratchpad

open Lua

/-- An error of the language that nothing caught. -/
structure Fault where
  message : String
  deriving DecidableEq, Repr

/-- The fault of an error value: its bytes as characters. Only strings and numbers have a message. -/
def Fault.ofValue (v : Lua.Value) : Fault :=
  match Operation.concatText? v with
  | some s => ⟨String.ofList (s.map fun b => Char.ofNat b.toNat)⟩
  | none => ⟨""⟩

structure Interpreter where
  store : Lua.Store := Library.initialStore
  threads : Array Thread := #[.active]
  /-- The number of environments made so far. -/
  environments : Nat := 0
  /-- The number of evaluations so far. -/
  evaluations : Nat := 0

namespace Interpreter

/-! ## Running -/

/-- A run takes no more steps than this. -/
def maxSteps : Nat := 1000000000000000000

/-- Runs a computation. -/
def run (i : Interpreter) (p : Prog) : Except Lua.Value (List Lua.Value) × Interpreter :=
  match i with
  | ⟨store, threads, environments, evaluations⟩ =>
    let (m, r) := Machine.run maxSteps { store, threads } p
    (r.getD (.error (.ofString "too many steps")), ⟨m.store, m.threads, environments, evaluations⟩)

/-- Runs a computation whose first value is the result. -/
def ask (i : Interpreter) (p : Prog) : Except Fault Lua.Value × Interpreter :=
  let (r, i) := i.run p
  ((r.map Operation.first).mapError Fault.ofValue, i)

/-- Calls a function and catches its errors; yields whether it succeeded, with its values or its error. -/
def protect (i : Interpreter) (f : Lua.Value) : (Bool × List Lua.Value) × Interpreter :=
  let site : Site := { position := some ⟨Library.environmentChunk, Library.callLine⟩, yieldable := true }
  let (r, i) := i.run (.call (.builtin (.lib .pcall)) [f] site .done)
  match r with
  | .ok (v :: vs) => ((v.isTrue, vs), i)
  | .ok [] => ((true, []), i)
  | .error e => ((false, [e]), i)

/-! ## Compiling -/

/-- The greatest length of a chunk's name in messages. -/
def maxChunkName : Nat := 59

/-- The name of a chunk as messages show it. -/
def chunkName (name : String) : Bytes :=
  ((bytes name).takeWhile (· != 0)).take maxChunkName

/-- The byte with which compiled programs begin. -/
def compiledMark : UInt8 := 27

/-- The message of a syntax error. -/
def syntaxMessage (chunk : Bytes) (e : SyntaxError) : String :=
  Text.Utf8.toStringLossy (if e.line = 0 then e.message else (Position.mk chunk e.line).text ++ e.message)

/-- Makes a function of a program whose global names are fields of `env`; fails with a message. -/
def compile (i : Interpreter) (source name : String) (env : Lua.Value) : Except String Lua.Value × Interpreter :=
  let program := bytes source
  let chunk := chunkName name
  if program.head? = some compiledMark then (.error "attempt to load a binary chunk (mode is 't')", i)
  else match parse chunk program with
    | .error e => (.error (syntaxMessage chunk e), i)
    | .ok func =>
      let cell := i.store.cells.size
      let id := i.store.closures.size
      (.ok (.closure id), { i with store := (i.store.pushCells [env]).pushClosure ⟨func, [cell]⟩ })

/-! ## Environments -/

def envKey : Lua.Value := .ofString "_ENV"

def printKey : Lua.Value := .ofString "print"

/-- Makes an environment: a table that reads through to the globals, keeps what is written to it, and holds itself under
the name `_ENV`. -/
def newEnvironment (i : Interpreter) : Nat × Interpreter :=
  let n := i.environments
  let through := Library.tableOf
    [("__index", .builtin (.readThrough n)), ("__newindex", .builtin (.writeLocal n))]
  let (s, mt) := Library.addTable i.store through
  let (s, id) := Library.addTable s { metatable := some mt }
  (id, { i with store := s.rawSet id envKey (.table id), environments := n + 1 })

/-- Makes an environment hold itself again. -/
def restoreSelf (i : Interpreter) (env : Nat) : Interpreter :=
  { i with store := i.store.rawSet env envKey (.table env) }

/-- An environment holds itself. -/
def holdsSelf (i : Interpreter) (env : Nat) : Bool :=
  i.store.rawGet env envKey == .table env

/-! ## Access from outside -/

/-- The value of a key of a table, without metamethods. -/
def rawGet (i : Interpreter) (table key : Lua.Value) : Except Fault Lua.Value × Interpreter :=
  i.ask (.call (.builtin (.lib .rawget)) [table, key] {} .done)

def rawSet (i : Interpreter) (table key v : Lua.Value) : Except Fault Lua.Value × Interpreter :=
  i.ask (.call (.builtin (.lib .rawset)) [table, key, v] {} .done)

/-- The key that stands for `nil`. -/
def orAbsent (key : Lua.Value) : Lua.Value :=
  if key.isNil then .userdata .absent else key

/-- Reads a field, with metamethods. -/
def index (i : Interpreter) (table key : Lua.Value) : Except Fault Lua.Value × Interpreter :=
  i.ask (Operation.index .native table (orAbsent key) none fun v => .done [v])

/-- Writes a field, with metamethods. -/
def setIndex (i : Interpreter) (table key v : Lua.Value) : Except Fault Lua.Value × Interpreter :=
  i.ask (Operation.setIndex .native table (orAbsent key) v none fun _ => .done [])

/-- The text of a value. -/
def textOf (i : Interpreter) (v : Lua.Value) : Except Fault String × Interpreter :=
  let (r, i) := i.ask (.call (.builtin (.lib .tostring)) [v] {} .done)
  (r.map fun t => match t with
    | .str s => Text.Utf8.toStringLossy s
    | _ => "", i)

/-! ## Values seen from outside -/

/-- The object that the outside takes a value for: a coroutine that was never resumed counts as its function. -/
def outward (i : Interpreter) : Lua.Value → Lua.Value
  | .thread id =>
    match i.threads[id]? with
    | some (.fresh f) => f
    | _ => .thread id
  | v => v

/-- A value as the outside sees it. -/
def shown (i : Interpreter) (v : Lua.Value) : Inspect.Value :=
  match i.outward v with
  | .nil => .nil
  | .bool b => .bool b
  | .int n => .int n.toInt
  | .float x => .float x
  | .str s => .ofBytes s
  | .table id => .ref ⟨.table, id⟩
  | .thread id => .ref ⟨.thread, id⟩
  | .userdata u => .ref ⟨.userdata, Operation.userdataNumber u⟩
  | v => .ref ⟨.function, (Operation.functionNumber? v).getD 0⟩

/-- A table as the outside sees it. -/
def shownTable (i : Interpreter) (id : Nat) : Inspect.Table :=
  let mt := Library.shownMetatable i.store (.table id)
  { entries := (i.store.table id).entries.map fun e => (i.shown e.1, i.shown e.2)
    metatable := if mt.isNil then none else some (i.shown mt) }

end Interpreter

end Scratchpad
