import Scratchpad.Lua.Syntax
import Scratchpad.Lua.Value

/-!
# Arithmetic

The operators on numbers. Integers wrap around; division and exponentiation are done in floating point; integer division
and remainder round down.
-/

namespace Scratchpad.Lua

/-- An operation that numbers do not have. -/
inductive ArithError where
  | divideByZero
  | moduloByZero
  /-- The operand has no integer value. -/
  | noInteger (second : Bool)
  deriving DecidableEq, Repr

/-- The wording of an error that names no operand. -/
def ArithError.message : ArithError → String
  | divideByZero => "attempt to divide by zero"
  | moduloByZero => "attempt to perform 'n%%0'"
  | noInteger _ => "number has no integer representation"

namespace Arith

/-- The quotient rounded down. -/
def floorDiv (a b : Int64) : Int64 :=
  Int64.ofInt (Int.fdiv a.toInt b.toInt)

/-- The remainder with the sign of the divisor. -/
def floorMod (a b : Int64) : Int64 :=
  Int64.ofInt (Int.fmod a.toInt b.toInt)

/-- Shifts bits to the left, or to the right by a negative count; the bits shifted in are zero. -/
def shiftLeft (a b : Int64) : Int64 :=
  let n := b.toInt
  if n ≤ -64 ∨ 64 ≤ n then 0
  else if 0 ≤ n then (a.toUInt64 <<< b.toUInt64).toInt64
  else (a.toUInt64 >>> (-b).toUInt64).toInt64

/-- The operators on integers that yield integers. -/
def ints (op : BinOp) (a b : Int64) : Except ArithError Int64 :=
  match op with
  | .add => .ok (a + b)
  | .sub => .ok (a - b)
  | .mul => .ok (a * b)
  | .idiv => if b = 0 then .error .divideByZero else .ok (floorDiv a b)
  | .mod => if b = 0 then .error .moduloByZero else .ok (floorMod a b)
  | .band => .ok (a &&& b)
  | .bor => .ok (a ||| b)
  | .bxor => .ok (a ^^^ b)
  | .shl => .ok (shiftLeft a b)
  | .shr => .ok (shiftLeft a (-b))
  | _ => .ok 0

/-- The operators on floating point numbers. -/
def floats (op : BinOp) (a b : Binary64) : Binary64 :=
  match op with
  | .add => a.add b
  | .sub => a.sub b
  | .mul => a.mul b
  | .div => a.div b
  | .pow => if b.sameValue (Binary64.ofInt 2) then a.mul a else a.pow b
  | .idiv => (a.div b).floor
  | .mod => a.floorMod b
  | _ => .zero

/-- The operators that work on the bits of integers. -/
def isBitwise : BinOp → Bool
  | .band | .bor | .bxor | .shl | .shr => true
  | _ => false

/-- The operators that always work in floating point. -/
def isFloat : BinOp → Bool
  | .div | .pow => true
  | _ => false

/-- A number as a floating point number. -/
def toFloat : Number → Binary64
  | .int i => Binary64.ofInt i.toInt
  | .float x => x

/-- The integer that a number equals. -/
def toInt? : Number → Option Int64
  | .int i => some i
  | .float x => Value.floatToInt? x

/-- A binary operator on numbers. -/
def binary (op : BinOp) (a b : Number) : Except ArithError Value :=
  if isBitwise op then
    match toInt? a, toInt? b with
    | some i, some j => (ints op i j).map .int
    | none, _ => .error (.noInteger false)
    | _, none => .error (.noInteger true)
  else match a, b with
    | .int i, .int j =>
      if isFloat op then .ok (.float (floats op (toFloat a) (toFloat b))) else (ints op i j).map .int
    | _, _ => .ok (.float (floats op (toFloat a) (toFloat b)))

/-- The order of two numbers, compared exactly; a NaN is below nothing. -/
def lt : Number → Number → Bool
  | .int i, .int j => i < j
  | .int i, .float y => !y.isNaN && y.compareInt i.toInt == .gt
  | .float x, .int j => !x.isNaN && x.compareInt j.toInt == .lt
  | .float x, .float y => x.lt y

def le : Number → Number → Bool
  | .int i, .int j => i ≤ j
  | .int i, .float y => !y.isNaN && y.compareInt i.toInt != .lt
  | .float x, .int j => !x.isNaN && x.compareInt j.toInt != .gt
  | .float x, .float y => x.le y

end Arith

/-- The name of an operator's metamethod, without the underscores. -/
def BinOp.event : BinOp → String
  | add => "add" | sub => "sub" | mul => "mul" | mod => "mod" | pow => "pow" | div => "div" | idiv => "idiv"
  | band => "band" | bor => "bor" | bxor => "bxor" | shl => "shl" | shr => "shr" | concat => "concat"
  | eq => "eq" | ne => "eq" | lt => "lt" | le => "le" | gt => "lt" | ge => "le"

/-- The operator of an arithmetic event. -/
def BinOp.ofEvent? (event : String) : Option BinOp :=
  [add, sub, mul, mod, pow, div, idiv].find? fun o => o.event == event

end Scratchpad.Lua
