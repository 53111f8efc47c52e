import Scratchpad.Lua.Value

/-!
# Tables

A table keeps the values of the keys from 1 to the size of its sequence part in an array and all other entries in a
list, in the order in which they were made. An entry whose value became `nil` keeps its place until the table is
rearranged, so that a traversal may remove entries.

The list has room for `room` entries. When an entry does not fit, the table is rearranged: the sequence part becomes the
largest power of two such that more than half of it is in use, and the list gets the room that the other entries need,
rounded up to a power of two. This fixes which of several borders the length operator finds.
-/

namespace Scratchpad.Lua

structure Table where
  /-- The values of the keys 1, 2, … -/
  items : Array Value := #[]
  /-- All other entries. -/
  others : List (Value × Value) := []
  /-- How many entries the list may hold. -/
  room : Nat := 0
  metatable : Option Nat := none
  deriving Inhabited

namespace Table

/-! ## Reading -/

/-- The positive integer that a key is. -/
def positive? : Value → Option Nat
  | .int i => if 1 ≤ i then some i.toNatClampNeg else none
  | _ => none

/-- The position of a key in the sequence part. -/
def itemIndex? (t : Table) (k : Value) : Option Nat :=
  match positive? k with
  | some n => if n ≤ t.items.size then some (n - 1) else none
  | none => none

/-- The value of a key in a list of entries. -/
def lookup (k : Value) : List (Value × Value) → Value
  | [] => .nil
  | e :: es => if e.1 = k then e.2 else lookup k es

/-- The value of a key that is in its stored form. -/
def getKey (t : Table) (k : Value) : Value :=
  match t.itemIndex? k with
  | some i => t.items.getD i .nil
  | none => lookup k t.others

/-- The value of a key. -/
def get (t : Table) (k : Value) : Value :=
  t.getKey k.toKey

/-- The value of an integer key. -/
def getNat (t : Table) (n : Nat) : Value :=
  t.getKey (.ofNat n)

/-! ## Arrangement -/

/-- The least power of two that is not below a number; zero for zero. -/
def powerFor (n : Nat) : Nat :=
  if n = 0 then 0 else if n = 1 then 1 else 1 <<< (Nat.log2 (n - 1) + 1)

/-- How many of the keys lie in the interval that ends at `2 ^ i`. -/
def countSlice (keys : List Nat) (i : Nat) : Nat :=
  keys.countP fun k => k ≤ 1 <<< i && (i = 0 || 1 <<< (i - 1) < k)

/-- The size of the sequence part for the given integer keys: `below` of them are at most `2 ^ (i - 1)`, and `best` is
the size found so far. -/
def sequenceSize (keys : List Nat) (total below best : Nat) (i : Nat) : Nat → Nat
  | 0 => best
  | fuel + 1 =>
    if 1 <<< i / 2 < total then
      let below := below + countSlice keys i
      sequenceSize keys total below (if 1 <<< i / 2 < below then 1 <<< i else best) (i + 1) fuel
    else best

/-- All entries with a value, those of the sequence part first. -/
def entries (t : Table) : List (Value × Value) :=
  let first := t.items.toList.mapIdx fun i v => (Value.ofNat (i + 1), v)
  (first ++ t.others).filter fun e => !e.2.isNil

/-- A table with a sequence part of `size` items, filled with the given entries. -/
def arrange (size : Nat) (metatable : Option Nat) (es : List (Value × Value)) : Table :=
  let inItems (k : Value) : Bool := (positive? k).any fun n => n ≤ size
  let items := es.foldl (fun (items : Array Value) e =>
    match positive? e.1 with
    | some n => if n ≤ size then items.set! (n - 1) e.2 else items
    | none => items) (Array.replicate size .nil)
  let others := es.filter fun e => !inItems e.1
  { items, others, room := powerFor others.length, metatable }

/-- The table with one more entry, rearranged. -/
def rearrange (t : Table) (k v : Value) : Table :=
  let es := t.entries ++ [(k, v)]
  let keys := es.filterMap fun e => positive? e.1
  arrange (sequenceSize keys keys.length 0 0 0 64) t.metatable es

/-! ## Writing -/

/-- The entries with the value of a key replaced, if the key is there. -/
def replace? (k v : Value) : List (Value × Value) → Option (List (Value × Value))
  | [] => none
  | e :: es => if e.1 = k then some ((k, v) :: es) else (replace? k v es).map (e :: ·)

/-- Sets the value of a key that is in its stored form and may be a key. -/
def setKey (t : Table) (k v : Value) : Table :=
  match t.itemIndex? k with
  | some i => { t with items := t.items.set! i v }
  | none =>
    match replace? k v t.others with
    | some others => { t with others }
    | none =>
      if v.isNil then t
      else if t.others.length < t.room then { t with others := t.others ++ [(k, v)] }
      else t.rearrange k v

/-- Sets the value of a key. -/
def set (t : Table) (k v : Value) : Table :=
  t.setKey k.toKey v

/-- The number of positions: the positive integers of the language. -/
def maxItems : Nat := 0x7FFFFFFFFFFFFFFF

/-- A table made by a constructor with the given items, as far as there are positions for them, and room for `fields`
other entries. -/
def ofItems (items : List Value) (fields : Nat) : Table :=
  { items := (items.take maxItems).toArray, room := powerFor fields }

/-! ## Length and traversal -/

/-- A border between a position that is zero or in use and one that is not. -/
def searchBorder (inUse : Nat → Bool) (low high : Nat) : Nat → Nat
  | 0 => low
  | fuel + 1 =>
    if high - low ≤ 1 then low
    else
      let m := (low + high) / 2
      if inUse m then searchBorder inUse m high fuel else searchBorder inUse low m fuel

/-- The first of `high`, `2 * high`, … that is not in use, with the one before it. -/
def findUnused (inUse : Nat → Bool) (low high : Nat) : Nat → Nat × Nat
  | 0 => (low, high)
  | fuel + 1 => if inUse high then findUnused inUse high (2 * high) fuel else (low, high)

/-- The length: a position in use, or zero, behind which the next one is not in use. -/
def length (t : Table) : Nat :=
  let n := t.items.size
  let inUse (i : Nat) : Bool := !(t.getNat i).isNil
  if n ≠ 0 && !inUse n then searchBorder inUse 0 n 64
  else if t.others.isEmpty || !inUse (n + 1) then n
  else
    let (low, high) := findUnused inUse (max n 1) (2 * max n 1) 64
    searchBorder inUse low high 64

/-- The first item with a value from position `i` on. -/
def nextItem (t : Table) (i : Nat) : Nat → Option (Value × Value)
  | 0 => none
  | fuel + 1 =>
    let v := t.items.getD i .nil
    if v.isNil then nextItem t (i + 1) fuel else some (.ofNat (i + 1), v)

/-- The first entry with a value. -/
def firstOther (es : List (Value × Value)) : Option (Value × Value) :=
  es.find? fun e => !e.2.isNil

/-- The entries behind a key, if the key is there. -/
def behind? (k : Value) : List (Value × Value) → Option (List (Value × Value))
  | [] => none
  | e :: es => if e.1 = k then some es else behind? k es

/-- The entry behind a key in the order of traversal, the first one behind `nil`. The outer option is empty if the key
is not in the table. -/
def next? (t : Table) (k : Value) : Option (Option (Value × Value)) :=
  let fromItem (i : Nat) : Option (Value × Value) :=
    (t.nextItem i (t.items.size - i)).orElse fun _ => firstOther t.others
  match k.toKey with
  | .nil => some (fromItem 0)
  | k =>
    match t.itemIndex? k with
    | some i => some (fromItem (i + 1))
    | none => (behind? k t.others).map firstOther

end Table

end Scratchpad.Lua
