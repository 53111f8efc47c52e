import Scratchpad.Lua.Library.Argument

/-!
# String functions

Functions on byte strings, with positions that count from the end if they are negative, and the arithmetic that strings
have through their metatable.
-/

namespace Scratchpad.Lua.Library

open Scratchpad.Lua.Comp Operation

/-! ## Positions -/

/-- The first position of a range in a string of `len` bytes; zero and negative positions count from the end. -/
def startPosition (len : Nat) (pos : Int) : Nat :=
  if 0 < pos then pos.toNat
  else if pos = 0 ∨ pos < -(len : Int) then 1
  else (len + pos + 1).toNat

/-- The last position of a range. -/
def endPosition (len : Nat) (pos : Int) : Nat :=
  if (len : Int) < pos then len
  else if 0 ≤ pos then pos.toNat
  else if pos < -(len : Int) then 0
  else (len + pos + 1).toNat

/-- The bytes from one position to another. -/
def slice (s : Bytes) (first last : Nat) : Bytes :=
  (s.drop (first - 1)).take (last + 1 - first)

def sub (c : Call) : Comp (List Value) := do
  let s ← c.string 1
  let first := startPosition s.length (← c.int 2).toInt
  let last := endPosition s.length (← c.optional 3 Call.int (-1)).toInt
  return [.str (slice s first last)]

def byteValues (c : Call) : Comp (List Value) := do
  let s ← c.string 1
  let i ← c.optional 2 Call.int 1
  let first := startPosition s.length i.toInt
  let last := endPosition s.length (← c.optional 3 Call.int i).toInt
  return (slice s first last).map fun b => .ofNat b.toNat

/-! ## Making strings -/

/-- The bytes of the arguments from place `n` on. -/
def charsFrom (c : Call) (n : Nat) : Nat → Comp Bytes
  | 0 => pure []
  | count + 1 => do
    let i ← c.int n
    c.check n (0 ≤ i && i ≤ 255) "value out of range"
    let rest ← charsFrom c (n + 1) count
    return i.toNatClampNeg.toUInt8 :: rest

/-- The greatest length of a string. -/
def maxLength : Nat := 0x7FFFFFFFFFFFFFFF

/-- The greatest length of a string that there is memory for. -/
def memoryLength : Nat := 0x80000000

/-- Copies of a string with a separator between them. -/
def repeated (s sep : Bytes) (n : Nat) : Bytes :=
  match n with
  | 0 => []
  | n + 1 => s ++ (List.replicate n (sep ++ s)).flatten

def rep (c : Call) : Comp (List Value) := do
  let s ← c.string 1
  let n ← c.int 2
  let sep ← c.optional 3 Call.string []
  let unit := s.length + sep.length
  if n ≤ 0 then return [.str []]
  else if maxLength / n.toNatClampNeg < unit then raiseHere (bytes "resulting string too large")
  else if memoryLength < unit * n.toNatClampNeg then failText (bytes "not enough memory")
  else if unit = 0 then return [.str []]
  else return [.str (repeated s sep n.toNatClampNeg)]

/-! ## Arithmetic on strings -/

/-- The arithmetic of strings: both operands are read as numbers. If one is none, the metamethod of the second operand
is called, unless that is a string. -/
def stringArith (event : String) (c : Call) : Comp (List Value) := do
  let a := c.arg 1
  let b := c.arg 2
  match a.coerceNumber?, b.coerceNumber? with
  | some m, some n =>
    match BinOp.ofEvent? event with
    | some op => return [← arith .native op (.ofNumber m) (.ofNumber n) none none]
    | none => return [← negate .native (.ofNumber m) none]
  | _, _ =>
    let isText := match b with
      | .str _ => true
      | _ => false
    let handler ← read fun s => s.metamethod b (bytes ("__" ++ event))
    if isText || handler.isNil then
      raiseHere (bytes ("attempt to " ++ event ++ " a '" ++ a.typeName ++ "' with a '" ++ b.typeName ++ "'"))
    else return [first (← call handler [a, b] {})]

/-! ## Dispatch -/

/-- What the string functions do, formatting apart; none of another function. -/
def text? (c : Call) : Option (Comp (List Value)) :=
  match c.func with
  | .strByte => some (byteValues c)
  | .strChar => some do return [.str (← charsFrom c 1 c.args.length)]
  | .strLen => some do return [.ofNat (← c.string 1).length]
  | .strLower => some do return [.str ((← c.string 1).map Byte.toLower)]
  | .strUpper => some do return [.str ((← c.string 1).map Byte.toUpper)]
  | .strReverse => some do return [.str (← c.string 1).reverse]
  | .strRep => some (rep c)
  | .strSub => some (sub c)
  | .strArith event => some (stringArith event c)
  | _ => none

end Scratchpad.Lua.Library
