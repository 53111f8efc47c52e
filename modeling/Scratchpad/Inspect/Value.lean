import Scratchpad.Number.Binary64
import Scratchpad.Text.Utf8

/-!
# Values as the printer sees them

A value is a scalar or a reference; the tables behind references are looked up in a store. Tables may share others and
refer to themselves.
-/

namespace Scratchpad.Inspect

/-- The kinds of reference values. -/
inductive Kind where
  | table | function | thread | userdata
  deriving DecidableEq, Repr

/-- The name of a kind. -/
def Kind.label : Kind → String
  | table => "table"
  | function => "function"
  | thread => "thread"
  | userdata => "userdata"

/-- The place of a kind among the kinds. -/
def Kind.index : Kind → Nat
  | table => 0
  | function => 1
  | thread => 2
  | userdata => 3

/-- An object by its kind and its number among the objects of that kind. -/
structure Ref where
  kind : Kind
  id : Nat
  deriving DecidableEq, Repr

/-- A value to be shown. -/
inductive Value where
  | nil
  | bool (b : Bool)
  | int (i : Int)
  | float (x : Binary64)
  | text (s : String)
  | bytes (bs : List UInt8)
  | ref (r : Ref)
  deriving DecidableEq, Repr

/-- What the printer sees of a table. -/
structure Table where
  /-- The entries, in the order in which the table gives them. -/
  entries : List (Value × Value)
  metatable : Option Value
  deriving Repr

/-- The tables by their numbers. -/
abbrev Store := Nat → Table

namespace Value

/-- A string of the language: a text if its bytes are well-formed UTF-8. -/
def ofBytes (bs : List UInt8) : Value :=
  match Text.Utf8.decode? bs with
  | some s => .text s
  | none => .bytes bs

def isScalar : Value → Bool
  | ref _ => false
  | _ => true

/-- A positive integer, as the index of a sequence. -/
def index? : Value → Option Nat
  | int i => if 1 ≤ i then some i.toNat else none
  | _ => none

/-! ## The order of keys -/

/-- Keys are grouped: numbers, then strings, then truth values, then references. -/
def rank : Value → Nat
  | int _ => 0
  | float _ => 0
  | text _ => 1
  | bytes _ => 1
  | bool _ => 2
  | _ => 3

/-- The text by which a string is ordered. -/
def sortText : Value → List Char
  | text s => s.toList
  | bytes bs => Text.Utf8.decodeLossy bs
  | _ => []

/-- Numbers are compared exactly. -/
def numberLt : Value → Value → Bool
  | int i, int j => i < j
  | int i, float y => !y.isNaN && y.compareInt i == .gt
  | float x, int j => !x.isNaN && x.compareInt j == .lt
  | float x, float y => x.lt y
  | _, _ => false

/-- The strict order of keys of the same rank. References are ordered like the places of their objects in memory, for
which a number and a kind stand. -/
def sameRankLt (a b : Value) : Bool :=
  match a, b with
  | bool x, bool y => !x && y
  | ref r, ref s => r.id < s.id || r.id == s.id && r.kind.index < s.kind.index
  | _, _ => if a.rank = 0 then numberLt a b else a.sortText < b.sortText

/-- The strict order in which the keys of a table are shown. -/
def keyLt (a b : Value) : Bool :=
  a.rank < b.rank || a.rank == b.rank && sameRankLt a b

/-! ## Equal keys -/

/-- The number that a key counts as; a truth value counts as 0 or 1. -/
def number? : Value → Option Value
  | bool b => some (int (if b then 1 else 0))
  | int i => some (int i)
  | float x => if x.isNaN then none else some (float x)
  | _ => none

/-- Two keys that a map holds as one: numbers of the same value, or the same value. -/
def sameKey (a b : Value) : Bool :=
  match a.number?, b.number? with
  | some m, some n => !numberLt m n && !numberLt n m
  | none, none => a == b
  | _, _ => false

end Value

/-- The entries with one more. The value of an equal key is replaced, and that key and its place stay. -/
def putEntry (entries : List (Value × Value)) (k v : Value) : List (Value × Value) :=
  if entries.any fun e => e.1.sameKey k then entries.map fun e => if e.1.sameKey k then (e.1, v) else e
  else entries ++ [(k, v)]

/-! ## The parts of a table -/

/-- The entry with an integer key. -/
def entryAt? (entries : List (Value × Value)) (n : Nat) : Option Value :=
  (entries.find? fun e => e.1.index? = some n).map (·.2)

/-- The values of the keys `n`, `n + 1`, … as far as they are present; `fuel` bounds their number. -/
def sequenceFrom (entries : List (Value × Value)) (n : Nat) : Nat → List Value
  | 0 => []
  | fuel + 1 =>
    match entryAt? entries n with
    | none => []
    | some v => v :: sequenceFrom entries (n + 1) fuel

/-- The entries of a table as the values of its keys from 1 on, and the other entries in the order of their keys.
Entries whose keys are equal in that order stay as they were, those without a positive integer key first. -/
def splitEntries (entries : List (Value × Value)) : List Value × List (Value × Value) :=
  let values := sequenceFrom entries 1 entries.length
  let indexed := entries.filter fun e => e.1.index?.any fun n => values.length < n
  let others := entries.filter fun e => e.1.index?.isNone
  (values, (others ++ indexed).mergeSort fun a b => !b.1.keyLt a.1)

end Scratchpad.Inspect
