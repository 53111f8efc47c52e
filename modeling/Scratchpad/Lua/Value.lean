import Scratchpad.Lua.Numeral

/-!
# Values

The values of the language. Tables, closures and threads are held by their numbers in the store; a function that the
library or the environment provides is a `Builtin`.
-/

namespace Scratchpad.Lua

/-- The functions of the standard library. -/
inductive LibFunction where
  | assert | error | getmetatable | ipairs | next | pairs | pcall | print | rawequal | rawget | rawlen | rawset
  | select | setmetatable | tonumber | tostring | type | xpcall
  | strByte | strChar | strFormat | strLen | strLower | strRep | strReverse | strSub | strUpper
  | tabConcat | tabInsert | tabPack | tabRemove | tabSort | tabUnpack
  | mathAbs | mathCeil | mathFloor | mathMax | mathMin | mathSqrt | mathTointeger | mathType
  | coCreate | coIsyieldable | coResume | coRunning | coStatus | coWrap | coYield
  | ioType
  /-- The text of a file. -/
  | fileText
  /-- The step of `ipairs`. -/
  | ipairsStep
  /-- The arithmetic of strings, by the name of the event. -/
  | strArith (event : String)
  /-- A function of a library that is outside of the modelled language: it is there by its name alone. -/
  | missing (name : String)
  deriving DecidableEq, Repr

namespace LibFunction

/-- The path from the globals to a library function, or a description of one that has none. -/
def label : LibFunction → String
  | assert => "assert" | error => "error" | getmetatable => "getmetatable" | ipairs => "ipairs" | next => "next"
  | pairs => "pairs" | pcall => "pcall" | print => "print" | rawequal => "rawequal" | rawget => "rawget"
  | rawlen => "rawlen" | rawset => "rawset" | select => "select" | setmetatable => "setmetatable"
  | tonumber => "tonumber" | tostring => "tostring" | type => "type" | xpcall => "xpcall"
  | strByte => "string.byte" | strChar => "string.char" | strFormat => "string.format" | strLen => "string.len"
  | strLower => "string.lower" | strRep => "string.rep" | strReverse => "string.reverse" | strSub => "string.sub"
  | strUpper => "string.upper"
  | tabConcat => "table.concat" | tabInsert => "table.insert" | tabPack => "table.pack"
  | tabRemove => "table.remove" | tabSort => "table.sort" | tabUnpack => "table.unpack"
  | mathAbs => "math.abs" | mathCeil => "math.ceil" | mathFloor => "math.floor" | mathMax => "math.max"
  | mathMin => "math.min" | mathSqrt => "math.sqrt" | mathTointeger => "math.tointeger" | mathType => "math.type"
  | coCreate => "coroutine.create" | coIsyieldable => "coroutine.isyieldable" | coResume => "coroutine.resume"
  | coRunning => "coroutine.running" | coStatus => "coroutine.status" | coWrap => "coroutine.wrap"
  | coYield => "coroutine.yield"
  | ioType => "io.type"
  | fileText => "(file)"
  | ipairsStep => "(ipairs)"
  | strArith event => "(" ++ event ++ ")"
  | missing name => name

/-- The path under which messages know the function. -/
def path? (f : LibFunction) : Option String :=
  match f with
  | fileText => none
  | ipairsStep => none
  | strArith _ => none
  | f => some f.label

end LibFunction

/-- The functions that are not closures of a program. Those of the environments carry the number of the environment or
of the evaluation that they were made for. -/
inductive Builtin where
  | lib (f : LibFunction)
  /-- Resumes a coroutine, as `coroutine.wrap` made it. -/
  | wrapped (thread : Nat)
  /-- Looks a name up in the globals, for an environment that lacks it. -/
  | readThrough (env : Nat)
  /-- Writes to the environment itself. -/
  | writeLocal (env : Nat)
  /-- The `print` that records what an evaluation prints. -/
  | capture (run : Nat)
  deriving DecidableEq, Repr

/-- The values that come from outside. -/
inductive Userdata where
  | stdin | stdout | stderr
  /-- The key under which the host stores nothing. -/
  | absent
  deriving DecidableEq, Repr

/-- A value of the language. -/
inductive Value where
  | nil
  | bool (b : Bool)
  | int (i : Int64)
  | float (x : Binary64)
  | str (s : Bytes)
  | table (id : Nat)
  | closure (id : Nat)
  | builtin (b : Builtin)
  | thread (id : Nat)
  | userdata (u : Userdata)
  deriving DecidableEq, Repr, Inhabited

namespace Value

def ofNumber : Number → Value
  | .int i => int i
  | .float x => float x

/-- Everything but `nil` and `false` is true. -/
def isTrue : Value → Bool
  | nil => false
  | bool b => b
  | _ => true

def isNil : Value → Bool
  | nil => true
  | _ => false

/-- A string given as text. -/
def ofString (s : String) : Value :=
  str (bytes s)

/-- An integer in the range of the language. -/
def ofNat (n : Nat) : Value :=
  int (Int64.ofNat n)

/-- The name of a value's type. -/
def typeName : Value → String
  | nil => "nil"
  | bool _ => "boolean"
  | int _ => "number"
  | float _ => "number"
  | str _ => "string"
  | table _ => "table"
  | closure _ => "function"
  | builtin _ => "function"
  | thread _ => "thread"
  | userdata _ => "userdata"

def isFunction : Value → Bool
  | closure _ => true
  | builtin _ => true
  | _ => false

def number? : Value → Option Number
  | int i => some (.int i)
  | float x => some (.float x)
  | _ => none

def isNumber (v : Value) : Bool :=
  v.number?.isSome

/-- The integer in range that a floating point number equals. -/
def floatToInt? (x : Binary64) : Option Int64 :=
  match x.toInt? with
  | some i => if -0x8000000000000000 ≤ i ∧ i < 0x8000000000000000 then some (Int64.ofInt i) else none
  | none => none

/-- The integer that a number equals. -/
def toInt? : Value → Option Int64
  | int i => some i
  | float x => floatToInt? x
  | _ => none

/-- The number that a value stands for where one is expected: a number, or a string that reads as one. -/
def coerceNumber? : Value → Option Number
  | int i => some (.int i)
  | float x => some (.float x)
  | str s => readNumber? s
  | _ => none

/-- Equality without metamethods. Integers and floating point numbers are compared by value. -/
def rawEq (a b : Value) : Bool :=
  match a, b with
  | float x, float y => x.sameValue y
  | int i, float y => y.compareInt i.toInt == .eq && !y.isNaN
  | float x, int j => x.compareInt j.toInt == .eq && !x.isNaN
  | a, b => a == b

/-- The value under which a key is stored: a floating point number with an integer value counts as that integer. -/
def toKey (k : Value) : Value :=
  match k with
  | float x => match floatToInt? x with
    | some i => int i
    | none => k
  | k => k

/-- A value that cannot be a key, with the words for it. -/
def badKey? : Value → Option String
  | nil => some "table index is nil"
  | float x => if x.isNaN then some "table index is NaN" else none
  | _ => none

end Value

end Scratchpad.Lua
