import Scratchpad.Number.Decimal
import Scratchpad.Text.Literal

/-!
# Plain data

Trees of scalars, sequences and maps, as a configuration file or a caller supplies them, and their two texts: `display`
for a value on its own and `literal` for a value inside another one.
-/

namespace Scratchpad

/-- A tree of plain data. A map keeps its entries in the order of insertion. -/
inductive Plain where
  | null
  | bool (b : Bool)
  | int (i : Int)
  | float (x : Binary64)
  | text (s : String)
  | bytes (bs : List UInt8)
  /-- A calendar date, or with `clock` a point in time, by its two texts. -/
  | stamp (clock : Bool) (shown written : String)
  | list (xs : List Plain)
  | tuple (xs : List Plain)
  | set (xs : List Plain)
  | map (entries : List (Plain × Plain))
  deriving Inhabited, Repr

namespace Plain

/-- The name of a value's type, as error messages give it. -/
def typeName : Plain → String
  | null => "NoneType"
  | bool _ => "bool"
  | int _ => "int"
  | float _ => "float"
  | text _ => "str"
  | bytes _ => "bytes"
  | stamp clock _ _ => if clock then "datetime" else "date"
  | list _ => "list"
  | tuple _ => "tuple"
  | set _ => "set"
  | map _ => "dict"

/-- A value that is neither absent, zero nor empty. -/
def isTruthy : Plain → Bool
  | null => false
  | bool b => b
  | int i => i ≠ 0
  | float x => !x.sameValue .zero
  | text s => s ≠ ""
  | bytes bs => !bs.isEmpty
  | stamp _ _ _ => true
  | list xs => !xs.isEmpty
  | tuple xs => !xs.isEmpty
  | set xs => !xs.isEmpty
  | map es => !es.isEmpty

/-- An integer, where a truth value counts as 0 or 1. -/
def int? : Plain → Option Int
  | bool b => some (if b then 1 else 0)
  | int i => some i
  | _ => none

/-- The number that a value counts as. -/
def number? : Plain → Option (Int ⊕ Binary64)
  | bool b => some (.inl (if b then 1 else 0))
  | int i => some (.inl i)
  | float x => if x.isNaN then none else some (.inr x)
  | _ => none

mutual

/-- Equality of values, where numbers are compared by value. -/
def same : Plain → Plain → Bool
  | null, null => true
  | text s, text t => s == t
  | bytes s, bytes t => s == t
  | stamp c s _, stamp d t _ => c == d && s == t
  | list xs, list ys => sameAll xs ys
  | tuple xs, tuple ys => sameAll xs ys
  | set xs, set ys => sameAll xs ys
  | map xs, map ys => sameEntries xs ys
  | a, b =>
    match a.number?, b.number? with
    | some (.inl i), some (.inl j) => i == j
    | some (.inl i), some (.inr y) => y.compareInt i == .eq
    | some (.inr x), some (.inl j) => x.compareInt j == .eq
    | some (.inr x), some (.inr y) => x.sameValue y
    | _, _ => false

def sameAll : List Plain → List Plain → Bool
  | [], [] => true
  | x :: xs, y :: ys => same x y && sameAll xs ys
  | _, _ => false

def sameEntries : List (Plain × Plain) → List (Plain × Plain) → Bool
  | [], [] => true
  | (k, v) :: xs, (l, w) :: ys => same k l && same v w && sameEntries xs ys
  | _, _ => false

end

/-- The entries with one more. The value of an equal key is replaced, and that key and its place stay. -/
def putEntry (entries : List (Plain × Plain)) (k v : Plain) : List (Plain × Plain) :=
  if entries.any fun e => e.1.same k then entries.map fun e => if e.1.same k then (e.1, v) else e
  else entries ++ [(k, v)]

mutual

/-- The text of a value inside another one. -/
def literal : Plain → String
  | null => "None"
  | bool b => if b then "True" else "False"
  | int i => toString i
  | float x => x.shortestText
  | text s => Text.Literal.ofText s
  | bytes bs => Text.Literal.ofBytes bs
  | stamp _ _ written => written
  | list xs => "[" ++ ", ".intercalate (literals xs) ++ "]"
  | tuple [x] => "(" ++ literal x ++ ",)"
  | tuple xs => "(" ++ ", ".intercalate (literals xs) ++ ")"
  | set [] => "set()"
  | set xs => "\x7b" ++ ", ".intercalate (literals xs) ++ "\x7d"
  | map es => "\x7b" ++ ", ".intercalate (entryLiterals es) ++ "\x7d"

def literals : List Plain → List String
  | [] => []
  | x :: xs => literal x :: literals xs

def entryLiterals : List (Plain × Plain) → List String
  | [] => []
  | (k, v) :: es => (literal k ++ ": " ++ literal v) :: entryLiterals es

end

/-- The text of a value on its own: a text is itself, everything else as inside another value. -/
def display : Plain → String
  | text s => s
  | stamp _ shown _ => shown
  | v => v.literal

end Plain

end Scratchpad
