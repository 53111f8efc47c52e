import Scratchpad.Lua.Library.Argument

/-!
# Mathematical functions
-/

namespace Scratchpad.Lua.Library

open Scratchpad.Lua.Comp Operation

/-- A floating point number, as an integer if it equals one. -/
def integerOr (x : Binary64) : Value :=
  match Value.floatToInt? x with
  | some i => .int i
  | none => .float x

/-- Rounds a number with `f`; an integer stays as it is. -/
def rounded (f : Binary64 → Binary64) (c : Call) : Comp (List Value) :=
  match c.arg 1 with
  | .int i => pure [.int i]
  | _ => do return [integerOr (f (← c.float 1))]

/-- The argument that no other one is `better` than. -/
def best (better : Value → Value → Comp Bool) (v : Value) : List Value → Comp Value
  | [] => pure v
  | w :: ws => do
    if ← better w v then best better w ws else best better v ws

def bestOf (better : Value → Value → Comp Bool) (c : Call) : Comp (List Value) := do
  let v ← c.any 1
  return [← best better v (c.args.drop 1)]

def abs (c : Call) : Comp (List Value) :=
  match c.arg 1 with
  | .int i => pure [.int (if i < 0 then -i else i)]
  | _ => do return [.float (← c.float 1).abs]

def tointeger (c : Call) : Comp (List Value) := do
  match (c.arg 1).coerceNumber?.bind Arith.toInt? with
  | some i => return [.int i]
  | none =>
    let _ ← c.any 1
    return [.nil]

def mathType (c : Call) : Comp (List Value) := do
  match ← c.any 1 with
  | .int _ => return [.ofString "integer"]
  | .float _ => return [.ofString "float"]
  | _ => return [.nil]

/-- What the mathematical functions do; none of another function. -/
def math? (c : Call) : Option (Comp (List Value)) :=
  match c.func with
  | .mathAbs => some (abs c)
  | .mathCeil => some (rounded Binary64.ceil c)
  | .mathFloor => some (rounded Binary64.floor c)
  | .mathMax => some (bestOf (fun w v => lessThan .native v w) c)
  | .mathMin => some (bestOf (fun w v => lessThan .native w v) c)
  | .mathSqrt => some do return [.float (← c.float 1).sqrt]
  | .mathTointeger => some (tointeger c)
  | .mathType => some (mathType c)
  | _ => none

end Scratchpad.Lua.Library
