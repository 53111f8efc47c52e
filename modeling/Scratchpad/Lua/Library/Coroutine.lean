import Scratchpad.Lua.Library.Argument

/-!
# Coroutine functions
-/

namespace Scratchpad.Lua.Library

open Scratchpad.Lua.Comp Operation

/-- A coroutine, by its number. -/
def thread (c : Call) (n : Nat) : Comp Nat :=
  match c.arg n with
  | .thread id => pure id
  | _ => c.typeError n "coroutine"

/-- Makes a coroutine that will run a function. -/
def spawn (f : Value) : Comp Nat :=
  fun k => .spawn f k

/-- Resumes a coroutine and yields whether that succeeded, with its values or its error. -/
def resume (id : Nat) (args : List Value) (closes : Bool) : Comp (Bool × List Value) :=
  fun k => .resume id args closes fun ok vs => k (ok, vs)

/-- The word for what a coroutine is doing. -/
def statusText : Status → String
  | .suspended => "suspended"
  | .running => "running"
  | .normal => "normal"
  | .dead => "dead"

/-- Resumes a coroutine in the place of a function: its error becomes one of the caller, at the caller's position if it
is a string. -/
def resumeWrapped (id : Nat) (args : List Value) : Comp (List Value) := do
  match ← resume id args true with
  | (true, vs) => return vs
  | (false, vs) =>
    match first vs with
    | .str s => raiseHere s
    | e => fail e

/-- What the coroutine functions do; none of another function. -/
def coroutine? (c : Call) : Option (Comp (List Value)) :=
  match c.func with
  | .coCreate => some do return [.thread (← spawn (← c.function 1))]
  | .coIsyieldable => some do
    let id ← match c.arg? 1 with
      | none => fun k => .running k
      | some _ => thread c 1
    fun k => .yieldable id fun b => k [.bool b]
  | .coResume => some do
    let id ← thread c 1
    let (ok, vs) ← resume id (c.args.drop 1) false
    return .bool ok :: vs
  | .coRunning => some fun k => .running fun id => k [.thread id, .bool (id == 0)]
  | .coStatus => some do
    let id ← thread c 1
    fun k => .status id fun st => k [.ofString (statusText st)]
  | .coWrap => some do return [.builtin (.wrapped (← spawn (← c.function 1)))]
  | .coYield => some fun k => .yield c.args k
  | _ => none

end Scratchpad.Lua.Library
