import Scratchpad.Lua.Operation

/-!
# Arguments of library functions

How a library function reads its arguments, and the errors it raises about them. An error begins with the position of
the code that called the function, and names the function as that code did; a function that the code did not name is
named by its path from the globals.
-/

namespace Scratchpad.Lua.Library

open Scratchpad.Lua.Comp Operation

/-- A call of a library function. -/
structure Call where
  func : LibFunction
  args : List Value

/-- The position of the code `level` calls up, as a message begins with it; level 1 called the running function. -/
def positionText (level : Nat) : Comp Bytes := do
  let sites ← callers
  match level with
  | 0 => return []
  | n + 1 => return ((sites[n]?.bind (·.position)).map Position.text).getD []

/-- An error of the running library function. -/
def raiseHere {α : Type} (message : Bytes) : Comp α := do
  let p ← positionText 1
  failText (p ++ message)

namespace Call

/-- The argument at a place, counted from 1. -/
def arg? (c : Call) (n : Nat) : Option Value :=
  c.args[n - 1]?

/-- An argument, `nil` if it is absent. -/
def arg (c : Call) (n : Nat) : Value :=
  (c.arg? n).getD .nil

/-- An error about an argument. The object of a method call does not count as one. -/
def argError {α : Type} (c : Call) (n : Nat) (message : Bytes) : Comp α := do
  let sites ← callers
  let origin := sites.head?.bind (·.origin)
  let name := match origin with
    | some o => o.name
    | none => bytes (c.func.path?.getD "?")
  let isMethod := origin.any fun o => o.kind == "method"
  if isMethod && n = 1 then
    raiseHere (bytes "calling '" ++ name ++ bytes "' on bad self (" ++ message ++ bytes ")")
  else
    let n := if isMethod then n - 1 else n
    raiseHere (bytes ("bad argument #" ++ toString n ++ " to '") ++ name ++ bytes "' (" ++ message ++ bytes ")")

/-- The error of an argument of the wrong type. -/
def typeError {α : Type} (c : Call) (n : Nat) (expected : String) : Comp α := do
  let got ← match c.arg? n with
    | none => pure (bytes "no value")
    | some v => read fun s => s.typeText v
  c.argError n (bytes (expected ++ " expected, got ") ++ got)

/-- An argument that must be there. -/
def any (c : Call) (n : Nat) : Comp Value :=
  match c.arg? n with
  | some v => pure v
  | none => c.argError n (bytes "value expected")

/-- A condition on an argument. -/
def check (c : Call) (n : Nat) (ok : Bool) (message : String) : Comp Unit :=
  if ok then pure () else c.argError n (bytes message)

/-- A table, by its number. -/
def table (c : Call) (n : Nat) : Comp Nat :=
  match c.arg n with
  | .table id => pure id
  | _ => c.typeError n "table"

def function (c : Call) (n : Nat) : Comp Value :=
  if (c.arg n).isFunction then pure (c.arg n) else c.typeError n "function"

/-- A number, or a string that reads as one. -/
def number (c : Call) (n : Nat) : Comp Number :=
  match (c.arg n).coerceNumber? with
  | some x => pure x
  | none => c.typeError n "number"

/-- A number as a floating point number. -/
def float (c : Call) (n : Nat) : Comp Binary64 :=
  Arith.toFloat <$> c.number n

/-- A number that is an integer. -/
def int (c : Call) (n : Nat) : Comp Int64 := do
  match Arith.toInt? (← c.number n) with
  | some i => return i
  | none => c.argError n (bytes "number has no integer representation")

/-- A string, or the text of a number. -/
def string (c : Call) (n : Nat) : Comp Bytes :=
  match concatText? (c.arg n) with
  | some s => pure s
  | none => c.typeError n "string"

/-- An argument that may be absent or `nil`, and then is `default`. -/
def optional {α : Type} (c : Call) (n : Nat) (read : Call → Nat → Comp α) (default : α) : Comp α :=
  if (c.arg n).isNil then pure default else read c n

end Call

/-- The text of a value. -/
def textOf (v : Value) : Comp Bytes :=
  toText .native v (raiseHere (bytes "'__tostring' must return a string"))

end Scratchpad.Lua.Library
