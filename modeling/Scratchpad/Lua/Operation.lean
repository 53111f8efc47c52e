import Scratchpad.Lua.Arithmetic
import Scratchpad.Lua.Computation

/-!
# Operations

The operations of the language on any values, with their metamethods: reading and writing fields, arithmetic,
concatenation, comparison, length and conversion to text. Each takes the place where it is done (`Spot`), which begins
its error messages, and the origins of its operands, which its messages name.
-/

namespace Scratchpad.Lua

/-- Where an operation is done. -/
structure Spot where
  position : Option Position := none
  yieldable : Bool := false

namespace Spot

/-- An operation of a program's text. -/
def ofLine (source : Bytes) (line : Nat) : Spot :=
  ⟨some ⟨source, line⟩, true⟩

/-- An operation of a library function. -/
def native : Spot := {}

/-- The call of a metamethod from here. What a library function calls has no name. -/
def metaSite (spot : Spot) (event : String) : Site :=
  { position := spot.position, origin := spot.position.map fun _ => ⟨"metamethod", bytes event⟩,
    yieldable := spot.yieldable }

end Spot

namespace Operation

open Scratchpad.Lua.Comp

/-- Ends in an error with a message that begins with the position. -/
def raise {α : Type} (spot : Spot) (message : Bytes) : Comp α :=
  failText ((spot.position.map Position.text).getD [] ++ message)

/-- The words for an operand's origin. -/
def originText (o : Option Origin) : Bytes :=
  (o.map Origin.text).getD []

/-- The error of an operation on a value of the wrong type. -/
def typeError {α : Type} (spot : Spot) (action : String) (v : Value) (o : Option Origin) : Comp α := do
  let t ← read fun s => s.typeText v
  raise spot (bytes ("attempt to " ++ action ++ " a ") ++ t ++ bytes " value" ++ originText o)

/-- The first of some values. -/
def first (vs : List Value) : Value :=
  vs.headD .nil

/-- Calls a metamethod for one value. -/
def callMeta (spot : Spot) (event : String) (f : Value) (args : List Value) : Comp Value :=
  first <$> call f args (spot.metaSite event)

/-- How far a chain of metatables is followed. -/
def maxChain : Nat := 2000

/-! ## Fields -/

def indexKey : Bytes := bytes "__index"

def newindexKey : Bytes := bytes "__newindex"

/-- Reads a field, following metatables at most `fuel` times. -/
def indexFrom (spot : Spot) : Nat → Value → Value → Option Origin → Comp Value
  | 0, _, _, _ => raise spot (bytes "'__index' chain too long; possibly a loop")
  | fuel + 1, obj, key, o => do
    let (v, handler) ← read fun s =>
      match obj with
      | .table id =>
        let v := s.rawGet id key
        (v, if v.isNil then s.metamethod obj indexKey else .nil)
      | _ => (.nil, s.metamethod obj indexKey)
    if handler.isNil then
      match obj with
      | .table _ => pure v
      | _ => typeError spot "index" obj o
    else if handler.isFunction then callMeta spot "index" handler [obj, key]
    else indexFrom spot fuel handler key none

/-- Reads a field. -/
def index (spot : Spot) (obj key : Value) (o : Option Origin) : Comp Value :=
  indexFrom spot maxChain obj key o

/-- Sets an entry of a table itself, if its key may be one. -/
def rawSet (spot : Spot) (id : Nat) (key v : Value) : Comp Unit :=
  match key.badKey? with
  | some message => raise spot (bytes message)
  | none => update fun s => s.rawSet id key v

/-- Writes a field, following metatables at most `fuel` times. -/
def setIndexFrom (spot : Spot) : Nat → Value → Value → Value → Option Origin → Comp Unit
  | 0, _, _, _, _ => raise spot (bytes "'__newindex' chain too long; possibly a loop")
  | fuel + 1, obj, key, v, o => do
    let handler ← read fun s =>
      match obj with
      | .table id => if (s.rawGet id key).isNil then s.metamethod obj newindexKey else .nil
      | _ => s.metamethod obj newindexKey
    if handler.isNil then
      match obj with
      | .table id => rawSet spot id key v
      | _ => typeError spot "index" obj o
    else if handler.isFunction then do
      let _ ← call handler [obj, key, v] (spot.metaSite "newindex")
      pure ()
    else setIndexFrom spot fuel handler key v none

/-- Writes a field. -/
def setIndex (spot : Spot) (obj key v : Value) (o : Option Origin) : Comp Unit :=
  setIndexFrom spot maxChain obj key v o

/-! ## Arithmetic -/

/-- The metamethod of the first operand that has one. -/
def binaryHandler (event : String) (a b : Value) : Comp Value := do
  let key := bytes ("__" ++ event)
  read fun s =>
    let h := s.metamethod a key
    if h.isNil then s.metamethod b key else h

/-- The error of an operator whose operands are not numbers: the first one that is none is named. -/
def operandError {α : Type} (spot : Spot) (action : String) (a b : Value) (oa ob : Option Origin) : Comp α :=
  if a.isNumber then typeError spot action b ob else typeError spot action a oa

/-- The error of an operator on numbers. -/
def arithError {α : Type} (spot : Spot) (e : ArithError) (oa ob : Option Origin) : Comp α :=
  match e with
  | .noInteger second =>
    raise spot (bytes "number" ++ originText (if second then ob else oa) ++ bytes " has no integer representation")
  | e => raise spot (bytes e.message)

/-- An arithmetic or bitwise operator. -/
def arith (spot : Spot) (op : BinOp) (a b : Value) (oa ob : Option Origin) : Comp Value :=
  match a.number?, b.number? with
  | some m, some n =>
    match Arith.binary op m n with
    | .ok v => pure v
    | .error e => arithError spot e oa ob
  | _, _ => do
    let handler ← binaryHandler op.event a b
    if handler.isNil then
      operandError spot (if Arith.isBitwise op then "perform bitwise operation on" else "perform arithmetic on")
        a b oa ob
    else callMeta spot op.event handler [a, b]

/-- The negative of a value. -/
def negate (spot : Spot) (a : Value) (o : Option Origin) : Comp Value :=
  match a with
  | .int i => pure (.int (-i))
  | .float x => pure (.float x.neg)
  | a => do
    let handler ← binaryHandler "unm" a a
    if handler.isNil then typeError spot "perform arithmetic on" a o else callMeta spot "unm" handler [a, a]

/-- The complement of the bits of a value. -/
def complement (spot : Spot) (a : Value) (o : Option Origin) : Comp Value :=
  match a.number? with
  | some n =>
    match Arith.toInt? n with
    | some i => pure (.int (~~~i))
    | none => arithError spot (.noInteger false) o o
  | none => do
    let handler ← binaryHandler "bnot" a a
    if handler.isNil then typeError spot "perform bitwise operation on" a o else callMeta spot "bnot" handler [a, a]

/-! ## Concatenation and length -/

/-- The text of a string or number. -/
def concatText? : Value → Option Bytes
  | .str s => some s
  | v => v.number?.map Number.text

def concat (spot : Spot) (a b : Value) (oa ob : Option Origin) : Comp Value :=
  match concatText? a, concatText? b with
  | some s, some t => pure (.str (s ++ t))
  | ta, _ => do
    let handler ← binaryHandler "concat" a b
    if handler.isNil then
      if ta.isSome then typeError spot "concatenate" b ob else typeError spot "concatenate" a oa
    else callMeta spot "concat" handler [a, b]

def length (spot : Spot) (a : Value) (o : Option Origin) : Comp Value :=
  match a with
  | .str s => pure (.ofNat s.length)
  | a => do
    let handler ← read fun s => s.metamethod a (bytes "__len")
    if handler.isNil then
      match a with
      | .table id => read fun s => .ofNat (s.table id).length
      | a => typeError spot "get length of" a o
    else callMeta spot "len" handler [a, a]

/-! ## Comparison -/

/-- The error of a comparison of values without an order. -/
def orderError {α : Type} (spot : Spot) (a b : Value) : Comp α := do
  let (ta, tb) ← read fun s => (s.typeText a, s.typeText b)
  if ta == tb then raise spot (bytes "attempt to compare two " ++ ta ++ bytes " values")
  else raise spot (bytes "attempt to compare " ++ ta ++ bytes " with " ++ tb)

/-- The order of two values: of numbers by `numbers`, of strings by `strings`, and else by the metamethod. -/
def order (numbers : Number → Number → Bool) (strings : Bytes → Bytes → Bool) (event : String) (spot : Spot)
    (a b : Value) : Comp Bool :=
  match a.number?, b.number? with
  | some m, some n => pure (numbers m n)
  | _, _ =>
    match a, b with
    | .str s, .str t => pure (strings s t)
    | a, b => do
      let handler ← binaryHandler event a b
      if handler.isNil then orderError spot a b
      else Value.isTrue <$> callMeta spot event handler [a, b]

def lessThan : Spot → Value → Value → Comp Bool :=
  order Arith.lt Bytes.lt "lt"

def lessEqual : Spot → Value → Value → Comp Bool :=
  order Arith.le (fun s t => !Bytes.lt t s) "le"

/-- Values that may have an equality of their own. -/
def comparesByMeta (a b : Value) : Bool :=
  match a, b with
  | .table _, .table _ => true
  | .userdata _, .userdata _ => true
  | _, _ => false

def equal (spot : Spot) (a b : Value) : Comp Bool :=
  if a.rawEq b then pure true
  else if comparesByMeta a b then do
    let handler ← binaryHandler "eq" a b
    if handler.isNil then pure false else Value.isTrue <$> callMeta spot "eq" handler [a, b]
  else pure false

/-- A binary operator of a program's text. -/
def binary (spot : Spot) (op : BinOp) (a b : Value) (oa ob : Option Origin) : Comp Value :=
  match op with
  | .concat => concat spot a b oa ob
  | .eq => .bool <$> equal spot a b
  | .ne => (fun r => .bool !r) <$> equal spot a b
  | .lt => .bool <$> lessThan spot a b
  | .le => .bool <$> lessEqual spot a b
  | .gt => .bool <$> lessThan spot b a
  | .ge => .bool <$> lessEqual spot b a
  | op => arith spot op a b oa ob

/-- A unary operator of a program's text. -/
def unary (spot : Spot) (op : UnOp) (a : Value) (o : Option Origin) : Comp Value :=
  match op with
  | .not => pure (.bool !a.isTrue)
  | .neg => negate spot a o
  | .len => length spot a o
  | .bnot => complement spot a o

/-! ## Text -/

/-- A text as a number, distinct for distinct texts. -/
def textNumber (s : String) : Nat :=
  (bytes s).foldl (fun n b => n * 257 + b.toNat + 1) 0

/-- The number of a function among all functions. -/
def functionNumber? : Value → Option Nat
  | .closure id => some (6 * id)
  | .builtin (.lib f) => some (6 * textNumber f.label + 1)
  | .builtin (.wrapped t) => some (6 * t + 2)
  | .builtin (.readThrough n) => some (6 * n + 3)
  | .builtin (.writeLocal n) => some (6 * n + 4)
  | .builtin (.capture n) => some (6 * n + 5)
  | _ => none

/-- The number of an object from outside. -/
def userdataNumber : Userdata → Nat
  | .stdin => 0
  | .stdout => 1
  | .stderr => 2
  | .absent => 3

/-- The address that stands for the object `n` of a kind in its text: twelve hexadecimal digits. -/
def addressText (kind n : Nat) : String :=
  let digits := Nat.toDigits 16 ((n * 5 + kind) % 0x1000000 * 0x10)
  "0x5555" ++ String.ofList (List.replicate (8 - digits.length) '0' ++ digits)

/-- The address of a reference value. -/
def address (v : Value) : String :=
  match v with
  | .table id => addressText 0 id
  | .thread id => addressText 1 id
  | .userdata u => addressText 2 (userdataNumber u)
  | v => addressText 3 ((functionNumber? v).getD 0)

/-- The text of a value that no metamethod gives. -/
def plainText (typeText : Bytes) (v : Value) : Bytes :=
  match v with
  | .nil => bytes "nil"
  | .bool b => bytes (if b then "true" else "false")
  | .str s => s
  | .int i => (Number.int i).text
  | .float x => (Number.float x).text
  | v => typeText ++ bytes (": " ++ address v)

/-- The text of a value; `fail` is the error of a metamethod that yields none. -/
def toText (spot : Spot) (v : Value) (fail : Comp Bytes) : Comp Bytes := do
  let handler ← read fun s => s.metamethod v (bytes "__tostring")
  if handler.isNil then read fun s => plainText (s.typeText v) v
  else
    match ← callMeta spot "tostring" handler [v] with
    | .str s => pure s
    | r => match r.number? with
      | some n => pure n.text
      | none => fail

end Operation

end Scratchpad.Lua
