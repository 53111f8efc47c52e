import Scratchpad.Lua.Library.Argument

/-!
# Basic functions

Types and conversions, access to tables without metamethods, traversal, metatables, and errors.
-/

namespace Scratchpad.Lua.Library

open Scratchpad.Lua.Comp Operation

/-! ## Conversions -/

/-- The value of a digit or letter in bases up to 36. -/
def digitValue? (b : UInt8) : Option Nat :=
  if Byte.isDigit b then some (b.toNat - 48)
  else if Byte.isAlpha b then some ((Byte.toUpper b).toNat - 55)
  else none

/-- The integer that a text stands for in a base. It wraps around. -/
def readInBase? (base : Nat) (s : Bytes) : Option Int64 :=
  let (negative, ds) := Numeral.splitSign (Numeral.trim s)
  let values := ds.map fun b => (digitValue? b).getD base
  if ds.isEmpty || values.any (base ≤ ·) then none
  else
    let n := Int64.ofNat (values.foldl (fun n d => n * base + d) 0)
    some (if negative then -n else n)

/-- A number for a value, or for a text in a base. -/
def tonumber (c : Call) : Comp (List Value) := do
  if (c.arg 2).isNil then
    match c.arg 1 with
    | .str s => return [(readNumber? s).elim .nil .ofNumber]
    | _ =>
      let v ← c.any 1
      return [if v.isNumber then v else .nil]
  else
    let base ← c.int 2
    match c.arg 1 with
    | .str s =>
      c.check 2 (2 ≤ base && base ≤ 36) "base out of range"
      return [(readInBase? base.toNatClampNeg s).elim .nil .int]
    | _ => c.typeError 1 "string"

/-- The extra arguments from a place on, or their number. -/
def select (c : Call) : Comp (List Value) := do
  let n := c.args.length
  match c.arg 1 with
  | .str (35 :: _) => return [.int (Int64.ofInt (n - 1))]
  | _ =>
    let i := (← c.int 1).toInt
    let i := if i < 0 then n + i else min i n
    c.check 1 (1 ≤ i) "index out of range"
    return c.args.drop i.toNat

/-! ## Tables -/

def rawlen (c : Call) : Comp (List Value) :=
  match c.arg 1 with
  | .table id => read fun s => [.ofNat (s.table id).length]
  | .str s => pure [.ofNat s.length]
  | _ => c.typeError 1 "table or string"

def rawset (c : Call) : Comp (List Value) := do
  let id ← c.table 1
  let k ← c.any 2
  let v ← c.any 3
  rawSet .native id k v
  return [.table id]

/-- The entry behind a key. -/
def next (c : Call) : Comp (List Value) := do
  let id ← c.table 1
  match ← read fun s => (s.table id).next? (c.arg 2) with
  | none => failText (bytes "invalid key to 'next'")
  | some none => return [.nil]
  | some (some (k, v)) => return [k, v]

/-- The function that steps through a table, with its first arguments. -/
def pairs (c : Call) : Comp (List Value) := do
  let v ← c.any 1
  let handler ← read fun s => s.metamethod v (bytes "__pairs")
  if handler.isNil then return [.builtin (.lib .next), v, .nil]
  else
    let vs ← call handler [v] { yieldable := true }
    return [vs.getD 0 .nil, vs.getD 1 .nil, vs.getD 2 .nil]

/-- The item behind an index. -/
def ipairsStep (c : Call) : Comp (List Value) := do
  let i := (← c.int 2) + 1
  let v ← index .native (c.arg 1) (.int i) none
  return if v.isNil then [.nil] else [.int i, v]

/-! ## Metatables -/

def setmetatable (c : Call) : Comp (List Value) := do
  let id ← c.table 1
  let mt ← match c.arg? 2 with
    | some .nil => pure none
    | some (.table m) => pure (some m)
    | _ => c.typeError 2 "nil or table"
  let locked ← read fun s => s.metamethod (.table id) (bytes "__metatable")
  if locked.isNil then
    update fun s => s.modifyTable id fun t => { t with metatable := mt }
    return [.table id]
  else raiseHere (bytes "cannot change a protected metatable")

/-- The metatable that a value shows: its own, or what that holds in its place. -/
def shownMetatable (s : Store) (v : Value) : Value :=
  match s.metatable? v with
  | none => .nil
  | some m =>
    let shown := s.rawGet m (.str (bytes "__metatable"))
    if shown.isNil then .table m else shown

/-! ## Errors -/

/-- Ends in an error; a message that is a string begins with the position `level` calls up. -/
def raiseAt {α : Type} (message : Value) (level : Int64) : Comp α := do
  match message with
  | .str s =>
    let p ← positionText level.toNatClampNeg
    fail (.str (p ++ s))
  | v => fail v

def assert (c : Call) : Comp (List Value) := do
  if (c.arg 1).isTrue then return c.args
  else
    let _ ← c.any 1
    raiseAt ((c.arg? 2).getD (.ofString "assertion failed!")) 1

/-- Calls a function and catches its errors. -/
def protectedCall (f : Value) (args : List Value) (handler : Option Value) : Comp (List Value) :=
  fun k => .protect f args handler fun ok vs => k (.bool ok :: vs)

/-! ## Dispatch -/

/-- What the basic functions do; none of another function. -/
def base? (c : Call) : Option (Comp (List Value)) :=
  match c.func with
  | .assert => some (assert c)
  | .error => some do raiseAt (c.arg 1) (← c.optional 2 Call.int 1)
  | .getmetatable => some do
    let v ← c.any 1
    read fun s => [shownMetatable s v]
  | .ipairs => some do
    let v ← c.any 1
    return [.builtin (.lib .ipairsStep), v, .int 0]
  | .ipairsStep => some (ipairsStep c)
  | .next => some (next c)
  | .pairs => some (pairs c)
  | .pcall => some do
    let f ← c.any 1
    protectedCall f (c.args.drop 1) none
  | .print => some do
    let _ ← c.args.mapM textOf
    return []
  | .rawequal => some do
    let a ← c.any 1
    let b ← c.any 2
    return [.bool (a.rawEq b)]
  | .rawget => some do
    let id ← c.table 1
    let k ← c.any 2
    read fun s => [s.rawGet id k]
  | .rawlen => some (rawlen c)
  | .rawset => some (rawset c)
  | .select => some (select c)
  | .setmetatable => some (setmetatable c)
  | .tonumber => some (tonumber c)
  | .tostring => some do
    let v ← c.any 1
    return [.str (← textOf v)]
  | .type => some do
    let v ← c.any 1
    return [.ofString v.typeName]
  | .xpcall => some do
    let h ← c.function 2
    protectedCall (c.arg 1) (c.args.drop 2) (some h)
  | _ => none

end Scratchpad.Lua.Library
