import Scratchpad.Lua.Store

/-!
# Computations

A computation (`Prog`) is what a function does, as a tree of steps: it reads or changes the store, calls functions,
runs loops, fails, and passes control between coroutines. The meaning of a program's text is a computation, and the
functions of the library are computations too; the machine runs them. Programs in this form need no stack of their own:
what follows a step is the function that the step carries.

`Comp α` is a computation that yields an `α` to what follows it.
-/

namespace Scratchpad.Lua

/-- The line of a chunk. -/
structure Position where
  source : Bytes
  line : Nat
  deriving DecidableEq, Repr

/-- How a message begins that has this position. -/
def Position.text (p : Position) : Bytes :=
  p.source ++ bytes (":" ++ toString p.line ++ ": ")

/-- Where a call was made. -/
structure Site where
  /-- The position of the call; none if no program text made it. -/
  position : Option Position := none
  /-- What the function was called as. -/
  origin : Option Origin := none
  /-- A coroutine can be suspended inside the call. -/
  yieldable : Bool := false
  deriving Repr

/-- What surrounds the code of a function while it runs. -/
structure Context where
  scope : Scope
  /-- The extra arguments. -/
  extra : List Value
  source : Bytes

/-- How a statement ends. -/
inductive Flow where
  | normal
  | brk
  /-- A jump to a label; `scope` is that of the jump. -/
  | goto (label : Bytes) (scope : Scope)
  | ret (vs : List Value)

/-- A loop that is about to begin its next round. -/
inductive Loop where
  | whileLoop (cond : Expr) (body : List Stmt) (ctx : Context)
  | repeatLoop (body : List Stmt) (ctx : Context)
  /-- `left` more rounds follow the next one. -/
  | counting (i : Int64) (left : Nat) (step : Int64) (body : List Stmt) (ctx : Context)
  | stepping (x stop step : Binary64) (body : List Stmt) (ctx : Context)
  | generic (f state control : Value) (count : Nat) (body : List Stmt) (line : Nat) (ctx : Context)
  /-- A block whose labels are the targets of jumps, from one of its statements on. -/
  | labelled (whole rest : List Stmt) (ctx : Context)

/-- What a coroutine is doing. -/
inductive Status where
  | suspended | running | normal | dead
  deriving DecidableEq, Repr

/-- A computation. -/
inductive Prog where
  /-- The function returns. -/
  | done (vs : List Value)
  /-- An error. -/
  | fail (e : Value)
  | query (f : Store → Prog)
  | update (f : Store → Store) (k : Prog)
  | call (f : Value) (args : List Value) (site : Site) (k : List Value → Prog)
  /-- A call that takes the place of the running function, if the callee is a function of a program. -/
  | tailCall (f : Value) (args : List Value) (site : Site) (k : List Value → Prog)
  /-- A call whose errors are caught; the truth value tells whether it succeeded. -/
  | protect (f : Value) (args : List Value) (handler : Option Value) (k : Bool → List Value → Prog)
  /-- Runs the rounds of a loop until one leaves it. -/
  | loop (l : Loop) (k : Flow → Prog)
  /-- The round ends and another one follows. -/
  | again (l : Loop)
  /-- Leaves the innermost loop or scope with a value to close. -/
  | leave (flow : Flow)
  /-- Runs `body`, which leaves with `leave`, and closes a value however it ends. -/
  | closing (v : Value) (site : Site) (body : Prog) (k : Flow → Prog)
  /-- The sites of the calls that are active, the innermost first. -/
  | callers (k : List Site → Prog)
  | yield (vs : List Value) (k : List Value → Prog)
  | spawn (f : Value) (k : Nat → Prog)
  /-- Resumes a coroutine; the truth value tells whether it ended or was suspended without an error. With `closes`, an
  error in it closes the values that were to be closed. -/
  | resume (thread : Nat) (args : List Value) (closes : Bool) (k : Bool → List Value → Prog)
  | status (thread : Nat) (k : Status → Prog)
  /-- The number of the running coroutine, zero outside of coroutines. -/
  | running (k : Nat → Prog)
  /-- A coroutine could be suspended where it is. -/
  | yieldable (thread : Nat) (k : Bool → Prog)

/-- A computation that yields a value to what follows it. -/
def Comp (α : Type) := (α → Prog) → Prog

namespace Comp

@[inline] protected def pure {α : Type} (a : α) : Comp α :=
  fun k => k a

@[inline] protected def bind {α β : Type} (c : Comp α) (f : α → Comp β) : Comp β :=
  fun k => c fun a => f a k

instance : Monad Comp where
  pure := Comp.pure
  bind := Comp.bind

/-- Ends in an error value. -/
@[inline] def fail {α : Type} (e : Value) : Comp α :=
  fun _ => .fail e

/-- Reads the store. -/
@[inline] def read {α : Type} (f : Store → α) : Comp α :=
  fun k => .query fun s => k (f s)

/-- Changes the store. -/
@[inline] def update (f : Store → Store) : Comp Unit :=
  fun k => .update f (k ())

/-- Makes a table. -/
def newTable (t : Table) : Comp Value :=
  fun k => .query fun s => let id := s.tables.size; .update (fun s => s.pushTable t) (k (.table id))

/-- Makes variables and yields their numbers, in order. -/
def newCells (vs : List Value) : Comp (List Nat) :=
  fun k => .query fun s =>
    let first := s.cells.size
    .update (fun s => s.pushCells vs) (k ((List.range vs.length).map (first + ·)))

/-- Makes a function of a program. -/
def newClosure (c : Closure) : Comp Value :=
  fun k => .query fun s => let id := s.closures.size; .update (fun s => s.pushClosure c) (k (.closure id))

def call (f : Value) (args : List Value) (site : Site) : Comp (List Value) :=
  fun k => .call f args site k

def callers : Comp (List Site) :=
  fun k => .callers k

/-- Ends in an error with a message. -/
def failText {α : Type} (message : Bytes) : Comp α :=
  fail (.str message)

/-- Ends in an error at a position. -/
def failAt {α : Type} (p : Position) (message : Bytes) : Comp α :=
  failText (p.text ++ message)

end Comp

end Scratchpad.Lua
