import Scratchpad.Lua.Library.Argument

/-!
# Table functions

Functions on sequences. They read and write fields with metamethods, so they also work on values that behave like tables.
Sorting is quicksort with the middle of three as the pivot; the order of its comparisons and exchanges is fixed, which
shows when a comparison has effects or is inconsistent.
-/

namespace Scratchpad.Lua.Library

open Scratchpad.Lua.Comp Operation

/-! ## Access -/

/-- A value that is a table or has the metamethods that the function will use. -/
def sequence (c : Call) (events : List String) : Comp Value := do
  let v := c.arg 1
  match v with
  | .table _ => return v
  | _ =>
    let able ← read fun s => (s.metatable? v).isSome && events.all fun e => !(s.metamethod v (bytes e)).isNil
    if able then return v else c.typeError 1 "table"

/-- The events behind reading a sequence. -/
def readEvents : List String := ["__index", "__len"]

/-- The events behind changing a sequence. -/
def changeEvents : List String := ["__index", "__newindex", "__len"]

/-- The length of a value. -/
def lengthOf (v : Value) : Comp Int64 := do
  match (← length .native v none).toInt? with
  | some n => return n
  | none => raiseHere (bytes "object length is not an integer")

def getItem (v : Value) (i : Int64) : Comp Value :=
  index .native v (.int i) none

def setItem (v : Value) (i : Int64) (x : Value) : Comp Unit :=
  setIndex .native v (.int i) x none

/-! ## Changing -/

/-- Moves the items before position `i` one place up, `count` of them, from the last one on. -/
def moveUp (v : Value) (i : Int64) : Nat → Comp Unit
  | 0 => pure ()
  | count + 1 => do
    setItem v i (← getItem v (i - 1))
    moveUp v (i - 1) count

/-- Moves the items behind position `i` one place down, `count` of them, from the first one on. -/
def moveDown (v : Value) (i : Int64) : Nat → Comp Unit
  | 0 => pure ()
  | count + 1 => do
    setItem v i (← getItem v (i + 1))
    moveDown v (i + 1) count

def insert (c : Call) : Comp (List Value) := do
  let v ← sequence c changeEvents
  let e := (← lengthOf v) + 1
  match c.args.length with
  | 2 =>
    setItem v e (c.arg 2)
    return []
  | 3 =>
    let pos ← c.int 2
    c.check 2 ((pos - 1).toUInt64 < e.toUInt64) "position out of bounds"
    moveUp v e (e.toInt - pos.toInt).toNat
    setItem v pos (c.arg 3)
    return []
  | _ => raiseHere (bytes "wrong number of arguments to 'insert'")

def remove (c : Call) : Comp (List Value) := do
  let v ← sequence c changeEvents
  let size ← lengthOf v
  let pos ← c.optional 2 Call.int size
  c.check 2 (pos == size || (pos - 1).toUInt64 ≤ size.toUInt64) "position out of bounds"
  let x ← getItem v pos
  let count := (size.toInt - pos.toInt).toNat
  moveDown v pos count
  setItem v (pos + Int64.ofNat count) .nil
  return [x]

/-! ## Reading -/

/-- The items from position `i` on, joined. -/
def joined (v : Value) (sep : Bytes) (i : Int64) : Nat → Comp Bytes
  | 0 => pure []
  | count + 1 => do
    match concatText? (← getItem v i) with
    | none => raiseHere (bytes ("invalid value (at index " ++ toString i.toInt ++ ") in table for 'concat'"))
    | some s =>
      if count = 0 then return s
      else return s ++ sep ++ (← joined v sep (i + 1) count)

def concatItems (c : Call) : Comp (List Value) := do
  let v ← sequence c readEvents
  let last ← lengthOf v
  let sep ← c.optional 2 Call.string []
  let i ← c.optional 3 Call.int 1
  let last ← c.optional 4 Call.int last
  return [.str (← joined v sep i (last.toInt - i.toInt + 1).toNat)]

/-- The items from position `i` on. -/
def items (v : Value) (i : Int64) : Nat → Comp (List Value)
  | 0 => pure []
  | count + 1 => do
    let x ← getItem v i
    return x :: (← items v (i + 1) count)

/-- More results than this do not fit on the stack. -/
def maxResults : Nat := 1000000

def unpack (c : Call) : Comp (List Value) := do
  let v := c.arg 1
  let i ← c.optional 2 Call.int 1
  let last ← if (c.arg 3).isNil then lengthOf v else c.int 3
  let count := (last.toInt - i.toInt + 1).toNat
  if maxResults ≤ count then raiseHere (bytes "too many results to unpack") else items v i count

def pack (c : Call) : Comp (List Value) := do
  let n := c.args.length
  let t := (Table.ofItems c.args 1).set (.ofString "n") (.ofNat n)
  return [← newTable t]

/-! ## Sorting -/

section Quicksort

variable (v : Value) (below : Value → Value → Comp Bool)

/-- Sets two items. -/
def setTwo (i j : Nat) (a b : Value) : Comp Unit := do
  setItem v (.ofNat i) a
  setItem v (.ofNat j) b

/-- The first position behind `i` whose item is not below the pivot, with that item. -/
def scanUp (pivot : Value) (up i : Nat) : Nat → Comp (Nat × Value)
  | 0 => raiseHere (bytes "invalid order function for sorting")
  | fuel + 1 => do
    let x ← getItem v (.ofNat (i + 1))
    if ← below x pivot then
      if i + 1 = up - 1 then raiseHere (bytes "invalid order function for sorting")
      else scanUp pivot up (i + 1) fuel
    else return (i + 1, x)

/-- The last position before `j` whose item the pivot is not below, with that item; `i` is where the scan from the other
side stopped. -/
def scanDown (pivot : Value) (i j : Nat) : Nat → Comp (Nat × Value)
  | 0 => raiseHere (bytes "invalid order function for sorting")
  | fuel + 1 => do
    let x ← getItem v (Int64.ofInt ((j : Int) - 1))
    if ← below pivot x then
      if j - 1 < i then raiseHere (bytes "invalid order function for sorting")
      else scanDown pivot i (j - 1) fuel
    else return (j - 1, x)

/-- Brings the items below the pivot, which stands before position `up`, in front of the others; yields the place where
the pivot ends up. -/
def partition (pivot : Value) (up i j : Nat) : Nat → Comp Nat
  | 0 => pure i
  | fuel + 1 => do
    let (i, x) ← scanUp v below pivot up i (up + 1)
    let (j, y) ← scanDown v below pivot i j (j + 1)
    if j < i then
      setTwo v (up - 1) i x pivot
      return i
    else
      setTwo v i j y x
      partition pivot up i j fuel

/-- Exchanges two items if they are in the wrong order: the one at `j` is below the one at `i`. -/
def exchange (i j : Nat) : Comp Unit := do
  let a ← getItem v (.ofNat i)
  let b ← getItem v (.ofNat j)
  if ← below b a then setTwo v i j b a

/-- Sorts the items from `lo` to `up`. -/
def sortRange : Nat → Nat → Nat → Comp Unit
  | 0, _, _ => pure ()
  | fuel + 1, lo, up => do
    if up ≤ lo then return ()
    exchange v below lo up
    if up - lo = 1 then return ()
    let p := (lo + up) / 2
    let a ← getItem v (.ofNat p)
    let b ← getItem v (.ofNat lo)
    if ← below a b then setTwo v p lo b a
    else
      let b ← getItem v (.ofNat up)
      if ← below b a then setTwo v p up b a
    if up - lo = 2 then return ()
    let pivot ← getItem v (.ofNat p)
    let x ← getItem v (.ofNat (up - 1))
    setTwo v p (up - 1) x pivot
    let p ← partition v below pivot up lo (up - 1) (up + 1)
    if p - lo < up - p then
      sortRange fuel lo (p - 1)
      sortRange fuel (p + 1) up
    else
      sortRange fuel (p + 1) up
      sortRange fuel lo (p - 1)

end Quicksort

/-- The greatest length that is sorted. -/
def maxSorted : Int64 := 0x7FFFFFFF

def sort (c : Call) : Comp (List Value) := do
  let v ← sequence c changeEvents
  let n ← lengthOf v
  if n ≤ 1 then return []
  c.check 1 (n < maxSorted) "array too big"
  let below ← if (c.arg 2).isNil then pure (lessThan .native)
    else do
      let f ← c.function 2
      pure fun a b => do return (first (← call f [a, b] {})).isTrue
  sortRange v below n.toNatClampNeg 1 n.toNatClampNeg
  return []

/-! ## Dispatch -/

/-- What the table functions do; none of another function. -/
def sequence? (c : Call) : Option (Comp (List Value)) :=
  match c.func with
  | .tabConcat => some (concatItems c)
  | .tabInsert => some (insert c)
  | .tabPack => some (pack c)
  | .tabRemove => some (remove c)
  | .tabSort => some (sort c)
  | .tabUnpack => some (unpack c)
  | _ => none

end Scratchpad.Lua.Library
