import Scratchpad.Lua.Numeral

/-!
# Programs

The expressions and statements of the language, with every name resolved. A variable is found by its distance in the
scope, counted from the innermost variable, across function borders; a name that no scope declares is a field of the
variable `_ENV`. Lines are those that messages give.
-/

namespace Scratchpad.Lua

inductive UnOp where
  | neg | not | len | bnot
  deriving DecidableEq, Repr

/-- The operators with two operands that are both evaluated. -/
inductive BinOp where
  | add | sub | mul | mod | pow | div | idiv | band | bor | bxor | shl | shr | concat | eq | ne | lt | le | gt | ge
  deriving DecidableEq, Repr

/-- A use of a declared variable. -/
structure VarRef where
  name : Bytes
  /-- How many variables of the scope were declared after it. -/
  distance : Nat
  /-- The variable belongs to a function around the current one. -/
  captured : Bool
  deriving DecidableEq, Repr

mutual

/-- An expression. -/
inductive Expr where
  | nil
  | bool (b : Bool)
  | number (n : Number)
  | str (s : Bytes)
  /-- The extra arguments of the function. -/
  | dots
  | var (v : VarRef)
  | index (obj key : Expr) (line : Nat)
  | call (fn : Expr) (args : List Expr) (line : Nat)
  | method (obj : Expr) (name : Bytes) (args : List Expr) (nameLine line : Nat)
  | function (f : Func)
  | unary (op : UnOp) (e : Expr) (line : Nat)
  | binary (op : BinOp) (l r : Expr) (line : Nat)
  | and (l r : Expr)
  | or (l r : Expr)
  /-- An expression in parentheses has one value. -/
  | paren (e : Expr)
  | table (fields : List Field)

/-- A field of a table constructor. -/
inductive Field where
  | item (e : Expr)
  | keyed (key value : Expr) (line : Nat)

/-- A statement. -/
inductive Stmt where
  /-- Declares variables; a variable marked true is closed when its scope ends. -/
  | locals (names : List (Bytes × Bool)) (values : List Expr) (line : Nat)
  | localFunction (f : Func)
  | assign (targets values : List Expr)
  /-- A call whose values are dropped. -/
  | call (e : Expr)
  | block (body : List Stmt)
  | whileLoop (cond : Expr) (body : List Stmt)
  /-- Runs the body until it breaks out of the loop. -/
  | repeatLoop (body : List Stmt)
  | branch (cond : Expr) (thenBody elseBody : List Stmt)
  | numericFor (start stop step : Expr) (body : List Stmt) (line : Nat)
  /-- Each round begins with a call of the first value, on the line `callLine`. -/
  | genericFor (count : Nat) (values : List Expr) (body : List Stmt) (line callLine : Nat)
  /-- With `tail`, the value is that of a call that replaces the running function. -/
  | ret (values : List Expr) (tail : Bool)
  | brk
  | goto (name : Bytes)
  /-- Behind the label, `depth` variables are in scope. -/
  | label (name : Bytes) (depth : Nat)

/-- A function: the number of its parameters, whether it takes more arguments, its statements, the line on which it
begins, and the name of its chunk in messages. -/
inductive Func where
  | mk (params : Nat) (vararg : Bool) (body : List Stmt) (line : Nat) (source : Bytes)

end

instance : Inhabited Expr := ⟨.nil⟩
instance : Inhabited Stmt := ⟨.brk⟩

namespace Func

def params : Func → Nat
  | mk n _ _ _ _ => n

def vararg : Func → Bool
  | mk _ v _ _ _ => v

def body : Func → List Stmt
  | mk _ _ b _ _ => b

def source : Func → Bytes
  | mk _ _ _ _ s => s

end Func

/-- What a message says about the origin of a value: what kind of place it came from, and the name of that place. -/
structure Origin where
  kind : String
  name : Bytes
  deriving DecidableEq, Repr

/-- The words in a message. -/
def Origin.text (o : Origin) : Bytes :=
  bytes (" (" ++ o.kind ++ " '") ++ o.name ++ bytes "')"

/-- The largest integer key that is named as such. -/
def largestNamedIndex : Int64 := 255

namespace Expr

/-- The variable in which global names are looked up. -/
def isEnv : Expr → Bool
  | var v => v.name == bytes "_ENV"
  | _ => false

/-- The origin of the value of an expression, if it has one worth naming. -/
def origin? : Expr → Option Origin
  | str s => some ⟨"constant", s⟩
  | var v => some ⟨if v.captured then "upvalue" else "local", v.name⟩
  | index obj key _ =>
    match key with
    | str s => some ⟨if obj.isEnv then "global" else "field", s⟩
    | number (.int i) =>
      some ⟨"field", bytes (if 0 ≤ i && i ≤ largestNamedIndex then "integer index" else "?")⟩
    | _ => some ⟨"field", bytes "?"⟩
  | method _ _ _ _ _ => none
  | paren e => e.origin?
  | _ => none

/-- A call of a function or method. -/
def isCall : Expr → Bool
  | call _ _ _ => true
  | method _ _ _ _ _ => true
  | _ => false

/-- An expression whose number of values is open. -/
def isMulti : Expr → Bool
  | call _ _ _ => true
  | method _ _ _ _ _ => true
  | dots => true
  | _ => false

/-- Gives an index expression its line. -/
def settle (line : Nat) : Expr → Expr
  | index o k 0 => index o k line
  | e => e

end Expr

end Scratchpad.Lua
