import Scratchpad.Lua.Syntax
import Scratchpad.Lua.Table

/-!
# The store

Everything that a program can change: variables, tables, and the lines that the running evaluation has printed. Objects
are numbered in the order in which they are made and never go away.
-/

namespace Scratchpad.Lua

/-- The variables in scope, the innermost first, by the numbers of their cells. -/
abbrev Scope := List Nat

/-- A function of a program with the variables around it. -/
structure Closure where
  func : Func
  scope : Scope

structure Store where
  cells : Array Value := #[]
  tables : Array Table := #[]
  closures : Array Closure := #[]
  /-- The metatable of all strings. -/
  stringMeta : Option Nat := none
  /-- The metatable of all files. -/
  fileMeta : Option Nat := none
  /-- The evaluation whose output is recorded. -/
  run : Nat := 0
  /-- The lines it has printed, the last one first. -/
  printed : List Bytes := []

namespace Store

/-- The table of the globals is the first one that is made. -/
def globals : Nat := 0

def cell (s : Store) (i : Nat) : Value :=
  s.cells.getD i .nil

def setCell (s : Store) (i : Nat) (v : Value) : Store :=
  { s with cells := s.cells.set! i v }

/-- Makes variables with the given values, at the numbers from the former count of cells on. -/
def pushCells (s : Store) (vs : List Value) : Store :=
  { s with cells := vs.foldl Array.push s.cells }

def table (s : Store) (id : Nat) : Table :=
  s.tables.getD id {}

def modifyTable (s : Store) (id : Nat) (f : Table → Table) : Store :=
  { s with tables := s.tables.modify id f }

/-- Makes a table, whose number is the former count of tables. -/
def pushTable (s : Store) (t : Table) : Store :=
  { s with tables := s.tables.push t }

def closure? (s : Store) (id : Nat) : Option Closure :=
  s.closures[id]?

def pushClosure (s : Store) (c : Closure) : Store :=
  { s with closures := s.closures.push c }

/-- The value of a key, without metamethods. -/
def rawGet (s : Store) (id : Nat) (k : Value) : Value :=
  (s.table id).get k

/-- Sets the value of a key, without metamethods. -/
def rawSet (s : Store) (id : Nat) (k v : Value) : Store :=
  s.modifyTable id fun t => t.set k v

/-- The metatable of a value. -/
def metatable? (s : Store) (v : Value) : Option Nat :=
  match v with
  | .table id => (s.table id).metatable
  | .str _ => s.stringMeta
  | .userdata .absent => none
  | .userdata _ => s.fileMeta
  | _ => none

/-- What the metatable of a value holds for an event; `nil` without a metatable. -/
def metamethod (s : Store) (v : Value) (event : Bytes) : Value :=
  match s.metatable? v with
  | some m => s.rawGet m (.str event)
  | none => .nil

/-- The name of a value's type in messages: what its metatable calls it, or else the type's own name. -/
def typeText (s : Store) (v : Value) : Bytes :=
  match s.metamethod v (bytes "__name"), v with
  | .str _, .str _ => bytes v.typeName
  | .str name, _ => name
  | _, _ => bytes v.typeName

end Store

end Scratchpad.Lua
