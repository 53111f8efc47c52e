import Scratchpad.Lua.Lexer
import Scratchpad.Lua.Syntax

/-!
# Parsing

`parse` reads a whole program and resolves its names. It fails with the first error in the order of reading: a lexical
error when the token it spoils is reached, and an undefined label when the function that uses it ends.

The reader keeps the functions and blocks around the current token (`FuncScope`, `BlockScope`), so that it knows which
variables and labels are visible. Nesting is limited (`maxLevels`), and so is the number of variables (`maxLocals`).

The limits that come from the form of compiled programs are not modelled: a function has at most 255 registers and as
many variables of the functions around it. So a program that is too large for them is accepted here, such as 128
variables that are declared and all returned.
-/

namespace Scratchpad.Lua

namespace Parser

/-! ## The state of the reader -/

/-- How a local variable may be used. -/
inductive Binding where
  | plain
  | const
  | close
  /-- A constant that stands for its value. -/
  | value (e : Expr)

structure Local where
  name : Bytes
  binding : Binding

/-- A `goto` or `break` that has not found its label yet. -/
structure Pending where
  name : Bytes
  line : Nat
  /-- How many variables of the function are in scope. -/
  active : Nat

structure Label where
  name : Bytes
  line : Nat
  active : Nat

structure BlockScope where
  isLoop : Bool
  /-- How many variables of the function were in scope at the beginning. -/
  active : Nat
  labels : List Label
  pending : List Pending
  /-- A variable that is closed at the end of its scope is visible. -/
  insideClose : Bool

structure FuncScope where
  line : Nat
  isMain : Bool
  vararg : Bool
  /-- The variables in scope, the innermost first. -/
  locals : List Local
  /-- The blocks around the current token, the innermost first. -/
  blocks : List BlockScope

structure State where
  /-- The remaining tokens; the first one is the current one. -/
  tokens : List Lexeme
  /-- The error behind the last of the tokens. -/
  failure : Option SyntaxError
  /-- The line of the token before the current one. -/
  last : Nat
  /-- The functions around the current token, the innermost first. -/
  funcs : List FuncScope
  /-- How deep statements and expressions are nested. -/
  level : Nat
  source : Bytes

abbrev Parse := StateT State (Except SyntaxError)

/-- Statements and expressions nest less deep than this. -/
def maxLevels : Nat := 199

/-- A function has at most this many variables at a time. -/
def maxLocals : Nat := 200

/-! ## Tokens -/

def current : Parse Lexeme := do
  let s ← get
  return s.tokens.headD ⟨.eof, [], s.last⟩

def currentToken : Parse Token := do
  return (← current).token

def currentLine : Parse Nat := do
  return (← current).line

/-- The line of the token read last. -/
def lastLine : Parse Nat := do
  return (← get).last

/-- Fails at the current token without mentioning it. -/
def failHere {α : Type} (message : Bytes) : Parse α := do
  throw ⟨← currentLine, message⟩

/-- Fails at the current token and mentions it. -/
def failNear {α : Type} (message : Bytes) : Parse α := do
  let l ← current
  throw ⟨l.line, message ++ bytes " near " ++ l.mention⟩

/-- A lexical error spoils the token that it stands in for. -/
def checkFailure (tokens : List Lexeme) : Parse Unit := do
  if tokens.isEmpty then
    match (← get).failure with
    | some e => throw e
    | none => pure ()

/-- Goes on to the next token. -/
def advance : Parse Unit := do
  let s ← get
  match s.tokens with
  | [] => pure ()
  | l :: rest =>
    if l.token = .eof then pure ()
    else
      checkFailure rest
      set { s with tokens := rest, last := l.line }

/-- The token after the current one. -/
def lookahead : Parse Token := do
  let rest := (← get).tokens.drop 1
  checkFailure rest
  return (rest.head?.map Lexeme.token).getD .eof

/-- Reads a token if it is the current one. -/
def testNext (t : Token) : Parse Bool := do
  if (← currentToken) = t then
    advance
    return true
  else return false

def testSym (s : Sym) : Parse Bool := testNext (.sym s)

/-- How a message names an expected token. -/
def expectedText (t : Token) : Bytes :=
  match t with
  | .name _ => bytes "<name>"
  | t => (⟨t, [], 0⟩ : Lexeme).mention

def failExpected {α : Type} (t : Token) : Parse α :=
  failNear (expectedText t ++ bytes " expected")

/-- Checks that a token is the current one. -/
def check (t : Token) : Parse Unit := do
  if (← currentToken) ≠ t then failExpected t

def expect (t : Token) : Parse Unit := do
  check t
  advance

def expectSym (s : Sym) : Parse Unit := expect (.sym s)

/-- Reads the token that closes what `opener` began on a line. -/
def expectMatch (closer opener : Token) (line : Nat) : Parse Unit := do
  if !(← testNext closer) then
    if (← currentLine) = line then failExpected closer
    else
      failNear (expectedText closer ++ bytes " expected (to close " ++ expectedText opener
        ++ bytes (" at line " ++ toString line ++ ")"))

def expectName : Parse Bytes := do
  match ← currentToken with
  | .name s =>
    advance
    return s
  | _ => failExpected (.name [])

/-- Counts a level of nesting while `p` runs. -/
def nested {α : Type} (p : Parse α) : Parse α := do
  let s ← get
  if maxLevels ≤ s.level + 1 then throw ⟨0, bytes "C stack overflow"⟩
  set { s with level := s.level + 1 }
  let r ← p
  modify fun s => { s with level := s.level - 1 }
  return r

/-! ## Scopes -/

def mainScope : FuncScope := ⟨0, true, true, [], []⟩

def func : Parse FuncScope := do
  return (← get).funcs.headD mainScope

def modifyFunc (f : FuncScope → FuncScope) : Parse Unit :=
  modify fun s => match s.funcs with
    | [] => s
    | fs :: rest => { s with funcs := f fs :: rest }

def modifyBlock (f : BlockScope → BlockScope) : Parse Unit :=
  modifyFunc fun fs => match fs.blocks with
    | [] => fs
    | b :: rest => { fs with blocks := f b :: rest }

def activeCount : Parse Nat := do
  return (← func).locals.length

/-- How many variables are in scope at run time: those of all functions and `_ENV`. -/
def scopeDepth : Parse Nat := do
  return (← get).funcs.foldl (fun n fs => n + fs.locals.length) 1

/-- Where a message says that a limit was exceeded. -/
def placeText (fs : FuncScope) : Bytes :=
  if fs.isMain then bytes "main function" else bytes ("function at line " ++ toString fs.line)

/-- Fails if `count` more variables would be too many. -/
def checkLocals (count : Nat) : Parse Unit := do
  let fs ← func
  if maxLocals < fs.locals.length + count then
    failNear (bytes ("too many local variables (limit is " ++ toString maxLocals ++ ") in ") ++ placeText fs)

/-- Brings variables into scope, the last one innermost. -/
def declare (names : List Local) : Parse Unit :=
  modifyFunc fun fs => { fs with locals := names.reverse ++ fs.locals }

/-- The use of a name that a function's own variables declare: its position and binding. -/
def findLocal (name : Bytes) (ls : List Local) : Option (Nat × Binding) :=
  (ls.findIdx? fun l => l.name == name).bind fun i => (ls[i]?).map fun l => (i, l.binding)

/-- The use of a name in the functions `fs`; `offset` variables are further in. -/
def resolve (name : Bytes) (offset : Nat) (captured : Bool) : List FuncScope → Option (VarRef × Binding)
  | [] => none
  | fs :: rest =>
    match findLocal name fs.locals with
    | some (i, b) => some (⟨name, offset + i, captured⟩, b)
    | none => resolve name (offset + fs.locals.length) true rest

/-- The variable or constant that a declared name stands for. -/
def declared? (name : Bytes) : Parse (Option (Expr × Binding)) := do
  match resolve name 0 false (← get).funcs with
  | some (v, b) =>
    match b with
    | .value e => return some (e, b)
    | b => return some (.var v, b)
  | none => return none

/-- The environment of the chunk or a variable that shadows it. -/
def envExpr : Parse Expr := do
  match ← declared? (bytes "_ENV") with
  | some (e, _) => return e
  | none => return .var ⟨bytes "_ENV", (← scopeDepth) - 1, true⟩

/-- A name as an expression: a variable, or else a field of the environment. -/
def nameExpr (name : Bytes) : Parse Expr := do
  if name == bytes "_ENV" then envExpr
  else match ← declared? name with
    | some (e, _) => return e
    | none => return .index (← envExpr) (.str name) 0

/-! ## Labels -/

/-- The label of a name that is visible in the current function. -/
def findLabel (name : Bytes) : Parse (Option Label) := do
  return (← func).blocks.findSome? fun b => b.labels.find? fun l => l.name == name

def jumpsIntoScope {α : Type} (g : Pending) : Parse α := do
  let ls := (← func).locals.reverse
  let name := (ls[g.active]?.map Local.name).getD []
  failHere (bytes "<goto " ++ g.name ++ bytes ("> at line " ++ toString g.line ++ " jumps into the scope of local '")
    ++ name ++ bytes "'")

/-- Gives the pending jumps of the current block their label. -/
def solve (l : Label) : Parse Unit := do
  let b ← (fun fs => fs.blocks.head?) <$> func
  for g in (b.map BlockScope.pending).getD [] do
    if g.name == l.name && g.active < l.active then jumpsIntoScope g
  modifyBlock fun b => { b with pending := b.pending.filter fun g => g.name != l.name }

def addPending (name : Bytes) (line : Nat) : Parse Unit := do
  let active ← activeCount
  modifyBlock fun b => { b with pending := b.pending ++ [⟨name, line, active⟩] }

def enterBlock (isLoop : Bool) : Parse Unit := do
  modifyFunc fun fs =>
    let inside := (fs.blocks.head?.map BlockScope.insideClose).getD false
    { fs with blocks := ⟨isLoop, fs.locals.length, [], [], inside⟩ :: fs.blocks }

def failUndefined {α : Type} (g : Pending) : Parse α :=
  if g.name == bytes "break" then failHere (bytes ("break outside a loop at line " ++ toString g.line))
  else failHere (bytes "no visible label '" ++ g.name ++ bytes ("' for <goto> at line " ++ toString g.line))

/-- Ends the current block: its variables and labels go, and its pending jumps look for a label further out. -/
def leaveBlock : Parse Unit := do
  let fs ← func
  match fs.blocks with
  | [] => pure ()
  | b :: rest =>
    let pending := if b.isLoop then b.pending.filter fun g => g.name != bytes "break" else b.pending
    let locals := fs.locals.drop (fs.locals.length - b.active)
    match rest with
    | [] =>
      modifyFunc fun fs => { fs with locals, blocks := [] }
      match pending with
      | [] => pure ()
      | g :: _ => failUndefined g
    | outer :: more =>
      let moved := pending.map fun g => { g with active := b.active }
      modifyFunc fun fs => { fs with locals, blocks := { outer with pending := outer.pending ++ moved } :: more }

/-- Reads the contents of a block. -/
def inBlock {α : Type} (isLoop : Bool) (p : Parse α) : Parse α := do
  enterBlock isLoop
  let r ← p
  leaveBlock
  return r

/-! ## Operators -/

/-- A token as a binary operator: its priorities to the left and to the right. -/
inductive Infix where
  | op (o : BinOp)
  | and
  | or

def infixOf : Token → Option (Infix × Nat × Nat)
  | .sym .plus => some (.op .add, 10, 10)
  | .sym .minus => some (.op .sub, 10, 10)
  | .sym .star => some (.op .mul, 11, 11)
  | .sym .percent => some (.op .mod, 11, 11)
  | .sym .caret => some (.op .pow, 14, 13)
  | .sym .slash => some (.op .div, 11, 11)
  | .sym .idiv => some (.op .idiv, 11, 11)
  | .sym .amp => some (.op .band, 6, 6)
  | .sym .pipe => some (.op .bor, 4, 4)
  | .sym .tilde => some (.op .bxor, 5, 5)
  | .sym .shl => some (.op .shl, 7, 7)
  | .sym .shr => some (.op .shr, 7, 7)
  | .sym .concat => some (.op .concat, 9, 8)
  | .sym .eq => some (.op .eq, 3, 3)
  | .sym .ne => some (.op .ne, 3, 3)
  | .sym .lt => some (.op .lt, 3, 3)
  | .sym .le => some (.op .le, 3, 3)
  | .sym .gt => some (.op .gt, 3, 3)
  | .sym .ge => some (.op .ge, 3, 3)
  | .word .kAnd => some (.and, 2, 2)
  | .word .kOr => some (.or, 1, 1)
  | _ => none

def prefixOf : Token → Option UnOp
  | .word .kNot => some .not
  | .sym .minus => some .neg
  | .sym .tilde => some .bnot
  | .sym .hash => some .len
  | _ => none

/-- The priority of the operators with one operand. -/
def unaryPriority : Nat := 12

/-- Errors of these operators are reported where the operator stands, those of comparisons where the operands end. -/
def BinOp.isComparison : BinOp → Bool
  | .eq | .ne | .lt | .le | .gt | .ge => true
  | _ => false

def Infix.build (i : Infix) (opLine endLine : Nat) (l r : Expr) : Expr :=
  match i with
  | .op o => .binary o l r (if BinOp.isComparison o then endLine else opLine)
  | .and => .and l r
  | .or => .or l r

/-- A constant that stands for its variable, if the expression is one. -/
def constant? : Expr → Option Expr
  | .nil => some .nil
  | .bool b => some (.bool b)
  | .number n => some (.number n)
  | .str s => some (.str s)
  | .unary .neg (.number (.int i)) _ => some (.number (.int (-i)))
  | .unary .neg (.number (.float x)) _ => some (.number (.float x.neg))
  | _ => none

/-! ## The grammar -/

/-- A token that ends a block; `until` does so for the contents of a loop. -/
def endsBlock (withUntil : Bool) : Token → Bool
  | .eof | .word .kElse | .word .kElseif | .word .kEnd => true
  | .word .kUntil => withUntil
  | _ => false

/-- The variables between `for` and its values, or the names in a parameter list, as locals. -/
def plainLocals (names : List Bytes) : List Local :=
  names.map fun n => ⟨n, .plain⟩

/-- `{ ',' Name }` -/
def moreNames : Nat → Parse (List Bytes)
  | 0 => failNear (bytes "chunk has too many syntax levels")
  | fuel + 1 => do
    if ← testSym .comma then return (← expectName) :: (← moreNames fuel)
    else return []

/-- Parameters, and whether there may be more arguments. -/
def paramList : Nat → Parse (List Bytes × Bool)
  | 0 => failNear (bytes "chunk has too many syntax levels")
  | fuel + 1 => do
    match ← currentToken with
    | .name n =>
      advance
      if ← testSym .comma then
        let (ns, v) ← paramList fuel
        return (n :: ns, v)
      else return ([n], false)
    | .sym .dots =>
      advance
      return ([], true)
    | _ => failNear (bytes "<name> or '...' expected")

/-- An attribute in angle brackets. -/
def angleBinding : Parse Binding := do
  if ← testSym .lt then
    let name ← expectName
    expectSym .gt
    if name == bytes "const" then return .const
    else if name == bytes "close" then return .close
    else failHere (bytes "unknown attribute '" ++ name ++ bytes "'")
  else return .plain

def isClose : Binding → Bool
  | .close => true
  | _ => false

/-- Names with attributes; at most one is to be closed. -/
def attributedNames : Nat → Bool → Parse (List Local)
  | 0, _ => failNear (bytes "chunk has too many syntax levels")
  | fuel + 1, closing => do
    let name ← expectName
    let b ← angleBinding
    if isClose b && closing then failHere (bytes "multiple to-be-closed variables in local list")
    let rest ← if ← testSym .comma then attributedNames fuel (closing || isClose b) else pure []
    return ⟨name, b⟩ :: rest

/-- Fails if a target of an assignment must not be assigned to. -/
def checkAssignable (name? : Option Bytes) (e : Expr) : Parse Unit := do
  let name? := match e with
    | .var v => some v.name
    | _ => name?
  match name? with
  | none => pure ()
  | some name =>
    match ← declared? name with
    | some (_, .const) | some (_, .close) | some (_, .value _) =>
      failHere (bytes "attempt to assign to const variable '" ++ name ++ bytes "'")
    | _ => pure ()

/-- The last names of a declaration whose values are constants stand for them. -/
def withConstant (names : List Local) (values : List Expr) : List Local :=
  if names.length = values.length then
    match names.reverse, values.getLast? with
    | l :: before, some e =>
      match l.binding, constant? e with
      | .const, some c => (⟨l.name, .value c⟩ :: before).reverse
      | _, _ => names
    | _, _ => names
  else names

/-- Reads the separator between two fields of a table, if there is one. -/
def fieldSeparator : Parse Bool := do
  if ← testSym .comma then return true else testSym .semi

mutual

/-- An expression whose operators bind tighter than `limit`. -/
def subExpr : Nat → Nat → Parse Expr
  | 0, _ => failNear (bytes "chunk has too many syntax levels")
  | fuel + 1, limit => nested do
    let first ← match prefixOf (← currentToken) with
      | some op => do
        let line ← currentLine
        advance
        let e ← subExpr fuel unaryPriority
        pure (.unary op (e.settle (← lastLine)) line)
      | none => simpleExpr fuel
    operators fuel limit first

/-- The operators behind an expression. -/
def operators : Nat → Nat → Expr → Parse Expr
  | 0, _, _ => failNear (bytes "chunk has too many syntax levels")
  | fuel + 1, limit, left => do
    match infixOf (← currentToken) with
    | some (i, leftPriority, rightPriority) =>
      if limit < leftPriority then do
        let line ← currentLine
        advance
        let left := left.settle (← lastLine)
        let right ← subExpr fuel rightPriority
        let endLine ← lastLine
        operators fuel limit (i.build line endLine left (right.settle endLine))
      else return left
    | none => return left

/-- An expression without operators. -/
def simpleExpr : Nat → Parse Expr
  | 0 => failNear (bytes "chunk has too many syntax levels")
  | fuel + 1 => do
    let constant (e : Expr) : Parse Expr := do
      advance
      return e
    match ← currentToken with
    | .number n => constant (.number n)
    | .str s => constant (.str s)
    | .word .kNil => constant .nil
    | .word .kTrue => constant (.bool true)
    | .word .kFalse => constant (.bool false)
    | .sym .dots =>
      if (← func).vararg then constant .dots
      else failNear (bytes "cannot use '...' outside a vararg function")
    | .sym .lbrace => constructor fuel
    | .word .kFunction => do
      let line ← currentLine
      advance
      return .function (← funcBody fuel false line)
    | _ => suffixed fuel

/-- A name or an expression in parentheses, and what it was if it stands for a constant. -/
def primary : Nat → Parse (Expr × Option Bytes)
  | 0 => failNear (bytes "chunk has too many syntax levels")
  | fuel + 1 => do
    match ← currentToken with
    | .name n => do
      advance
      return (← nameExpr n, some n)
    | .sym .lparen => do
      let line ← currentLine
      advance
      let e ← subExpr fuel 0
      expectMatch (.sym .rparen) (.sym .lparen) line
      return (.paren (e.settle (← lastLine)), none)
    | _ => failNear (bytes "unexpected symbol")

/-- A primary expression with everything that is applied to it. -/
def suffixed : Nat → Parse Expr
  | 0 => failNear (bytes "chunk has too many syntax levels")
  | fuel + 1 => do
    let (e, _) ← primary fuel
    suffixes fuel e

/-- What is applied to an expression: fields, indices, method calls and calls. -/
def suffixes : Nat → Expr → Parse Expr
  | 0, _ => failNear (bytes "chunk has too many syntax levels")
  | fuel + 1, e => do
    match ← currentToken with
    | .sym .dot => do
      let e := e.settle (← lastLine)
      advance
      let name ← expectName
      suffixes fuel (.index e (.str name) 0)
    | .sym .lbracket => do
      let e := e.settle (← lastLine)
      let k ← bracketKey fuel
      suffixes fuel (.index e k 0)
    | .sym .colon => do
      advance
      let e := e.settle (← lastLine)
      let name ← expectName
      let nameLine ← lastLine
      let (args, line) ← callArgs fuel
      suffixes fuel (.method e name args nameLine line)
    | .sym .lparen | .sym .lbrace | .str _ => do
      let e := e.settle (← lastLine)
      let (args, line) ← callArgs fuel
      suffixes fuel (.call e args line)
    | _ => return e

/-- `'[' exp ']'` -/
def bracketKey : Nat → Parse Expr
  | 0 => failNear (bytes "chunk has too many syntax levels")
  | fuel + 1 => do
    advance
    let k ← subExpr fuel 0
    let k := k.settle (← lastLine)
    expectSym .rbracket
    return k

/-- The arguments of a call and the line on which they begin. -/
def callArgs : Nat → Parse (List Expr × Nat)
  | 0 => failNear (bytes "chunk has too many syntax levels")
  | fuel + 1 => do
    let line ← currentLine
    match ← currentToken with
    | .sym .lparen => do
      advance
      if ← testSym .rparen then return ([], line)
      else
        let args ← exprList fuel
        expectMatch (.sym .rparen) (.sym .lparen) line
        let close ← lastLine
        return (args.map (Expr.settle close), line)
    | .sym .lbrace => return ([← constructor fuel], line)
    | .str s => do
      advance
      return ([.str s], line)
    | _ => failNear (bytes "function arguments expected")

/-- `exp { ',' exp }`; the last expression has no line yet. -/
def exprList : Nat → Parse (List Expr)
  | 0 => failNear (bytes "chunk has too many syntax levels")
  | fuel + 1 => do
    let e ← subExpr fuel 0
    if ← testSym .comma then
      let e := e.settle (← lastLine)
      return e :: (← exprList fuel)
    else return [e]

/-- A table constructor. -/
def constructor : Nat → Parse Expr
  | 0 => failNear (bytes "chunk has too many syntax levels")
  | fuel + 1 => do
    let line ← currentLine
    expectSym .lbrace
    let fields ← fieldList fuel
    expectMatch (.sym .rbrace) (.sym .lbrace) line
    let close ← lastLine
    return .table (fields.map fun f => match f with
      | .item e => .item (e.settle close)
      | f => f)

/-- `[ field { sep field } [ sep ] ]` -/
def fieldList : Nat → Parse (List Field)
  | 0 => failNear (bytes "chunk has too many syntax levels")
  | fuel + 1 => do
    if (← currentToken) = .sym .rbrace then return []
    else
      let f ← field fuel
      if ← fieldSeparator then
        let line ← lastLine
        let f := match f with
          | .item e => .item (e.settle line)
          | f => f
        return f :: (← fieldList fuel)
      else return [f]

def field : Nat → Parse Field
  | 0 => failNear (bytes "chunk has too many syntax levels")
  | fuel + 1 => do
    let value (key : Expr) : Parse Field := do
      expectSym .assign
      let v ← subExpr fuel 0
      let line ← lastLine
      return .keyed key (v.settle line) line
    match ← currentToken with
    | .name n =>
      if (← lookahead) = .sym .assign then do
        advance
        value (.str n)
      else return .item (← subExpr fuel 0)
    | .sym .lbracket => do
      let k ← bracketKey fuel
      value k
    | _ => return .item (← subExpr fuel 0)

/-- The parameters and statements of a function that begins on a line. -/
def funcBody : Nat → Bool → Nat → Parse Func
  | 0, _, _ => failNear (bytes "chunk has too many syntax levels")
  | fuel + 1, isMethod, line => do
    modify fun s => { s with funcs := ⟨line, false, false, [], []⟩ :: s.funcs }
    enterBlock false
    expectSym .lparen
    let (names, vararg) ← if (← currentToken) = .sym .rparen then pure ([], false) else paramList fuel
    let names := if isMethod then bytes "self" :: names else names
    checkLocals names.length
    declare (plainLocals names)
    modifyFunc fun fs => { fs with vararg }
    expectSym .rparen
    let body ← statements fuel
    expectMatch (.word .kEnd) (.word .kFunction) line
    leaveBlock
    modify fun s => { s with funcs := s.funcs.drop 1 }
    return .mk names.length vararg body line (← get).source

/-- The statements up to the end of a block. -/
def statements : Nat → Parse (List Stmt)
  | 0 => failNear (bytes "chunk has too many syntax levels")
  | fuel + 1 => do
    let t ← currentToken
    if endsBlock true t then return []
    else if t = .word .kReturn then return [← nested (returnStmt fuel)]
    else
      let ss ← nested (statement fuel)
      return ss ++ (← statements fuel)

/-- A block of its own. -/
def block : Nat → Parse (List Stmt)
  | 0 => failNear (bytes "chunk has too many syntax levels")
  | fuel + 1 => inBlock false (statements fuel)

/-- `return [explist] [';']` -/
def returnStmt : Nat → Parse Stmt
  | 0 => failNear (bytes "chunk has too many syntax levels")
  | fuel + 1 => do
    advance
    let t ← currentToken
    let values ← if endsBlock true t || t = .sym .semi then pure [] else exprList fuel
    let line ← lastLine
    let _ ← testSym .semi
    let inside := ((← func).blocks.head?.map BlockScope.insideClose).getD false
    let tail := !inside && match values with
      | [e] => e.isCall
      | _ => false
    return .ret (values.map (Expr.settle line)) tail

/-- One statement; the empty statement gives nothing. -/
def statement : Nat → Parse (List Stmt)
  | 0 => failNear (bytes "chunk has too many syntax levels")
  | fuel + 1 => do
    let line ← currentLine
    match ← currentToken with
    | .sym .semi => do
      advance
      return []
    | .word .kIf => do
      advance
      return [← ifStmt fuel line]
    | .word .kWhile => do
      advance
      let cond ← subExpr fuel 0
      let cond := cond.settle (← lastLine)
      inBlock true do
        expect (.word .kDo)
        let body ← block fuel
        expectMatch (.word .kEnd) (.word .kWhile) line
        return [.whileLoop cond body]
    | .word .kDo => do
      advance
      let body ← block fuel
      expectMatch (.word .kEnd) (.word .kDo) line
      return [.block body]
    | .word .kFor => forStmt fuel line
    | .word .kRepeat => do
      advance
      inBlock true <| inBlock false do
        let body ← statements fuel
        expectMatch (.word .kUntil) (.word .kRepeat) line
        let cond ← subExpr fuel 0
        -- the condition sees the variables of the body
        return [.repeatLoop (body ++ [.branch (cond.settle (← lastLine)) [.brk] []])]
    | .word .kFunction => do
      advance
      return [← functionStmt fuel line]
    | .word .kLocal => do
      advance
      if ← testNext (.word .kFunction) then localFunction fuel
      else localStmt fuel
    | .sym .dcolon => do
      advance
      let name ← expectName
      labelStmt fuel name line
    | .word .kBreak => do
      advance
      addPending (bytes "break") line
      return [.brk]
    | .word .kGoto => do
      advance
      let name ← expectName
      match ← findLabel name with
      | some _ => pure ()
      | none => addPending name line
      return [.goto name]
    | _ => exprStmt fuel

/-- `if` after its keyword, with the clauses that follow. -/
def ifStmt : Nat → Nat → Parse Stmt
  | 0, _ => failNear (bytes "chunk has too many syntax levels")
  | fuel + 1, line => do
    let cond ← subExpr fuel 0
    expect (.word .kThen)
    let cond := cond.settle (← lastLine)
    let thenBody ← block fuel
    match ← currentToken with
    | .word .kElseif => do
      advance
      return .branch cond thenBody [← ifStmt fuel line]
    | .word .kElse => do
      advance
      let elseBody ← block fuel
      expectMatch (.word .kEnd) (.word .kIf) line
      return .branch cond thenBody elseBody
    | _ => do
      expectMatch (.word .kEnd) (.word .kIf) line
      return .branch cond thenBody []

/-- `for` from its keyword on. -/
def forStmt : Nat → Nat → Parse (List Stmt)
  | 0, _ => failNear (bytes "chunk has too many syntax levels")
  | fuel + 1, line => inBlock true do
    advance
    let name ← expectName
    match ← currentToken with
    | .sym .assign => do
      advance
      let bound : Parse Expr := do
        let e ← subExpr fuel 0
        return e.settle (← lastLine)
      let start ← bound
      expectSym .comma
      let stop ← bound
      let step ← if ← testSym .comma then bound else pure (.number (.int 1))
      let (body, doLine) ← forBody fuel [name] line
      return [.numericFor start stop step body doLine]
    | .sym .comma | .word .kIn => do
      let names := name :: (← moreNames fuel)
      expect (.word .kIn)
      let callLine ← currentLine
      let values ← exprList fuel
      let valuesLine ← lastLine
      -- the loop may have a value to close, so no call in it replaces the running function
      modifyBlock fun b => { b with insideClose := true }
      let (body, doLine) ← forBody fuel names line
      return [.genericFor names.length (values.map (Expr.settle valuesLine)) body doLine callLine]
    | _ => failNear (bytes "'=' or 'in' expected")

/-- The body of a `for` loop and the line of its `do`. -/
def forBody : Nat → List Bytes → Nat → Parse (List Stmt × Nat)
  | 0, _, _ => failNear (bytes "chunk has too many syntax levels")
  | fuel + 1, names, line => do
    expect (.word .kDo)
    let doLine ← lastLine
    let body ← inBlock false do
      checkLocals names.length
      declare (plainLocals names)
      statements fuel
    expectMatch (.word .kEnd) (.word .kFor) line
    return (body, doLine)

/-- `function` statement after its keyword. -/
def functionStmt : Nat → Nat → Parse Stmt
  | 0, _ => failNear (bytes "chunk has too many syntax levels")
  | fuel + 1, line => do
    let name ← expectName
    let target ← nameExpr name
    let (target, isMethod) ← functionName fuel target
    let f ← funcBody fuel isMethod line
    checkAssignable (match target with
      | .index _ _ _ => none
      | _ => some name) target
    return .assign [target.settle line] [.function f]

/-- `{ '.' Name } [ ':' Name ]` -/
def functionName : Nat → Expr → Parse (Expr × Bool)
  | 0, _ => failNear (bytes "chunk has too many syntax levels")
  | fuel + 1, target => do
    match ← currentToken with
    | .sym .dot => do
      let target := target.settle (← lastLine)
      advance
      functionName fuel (.index target (.str (← expectName)) 0)
    | .sym .colon => do
      let target := target.settle (← lastLine)
      advance
      return (.index target (.str (← expectName)) 0, true)
    | _ => return (target, false)

def localFunction : Nat → Parse (List Stmt)
  | 0 => failNear (bytes "chunk has too many syntax levels")
  | fuel + 1 => do
    let name ← expectName
    checkLocals 1
    declare [⟨name, .plain⟩]
    let f ← funcBody fuel false (← currentLine)
    return [.localFunction f]

def localStmt : Nat → Parse (List Stmt)
  | 0 => failNear (bytes "chunk has too many syntax levels")
  | fuel + 1 => do
    let names ← attributedNames fuel false
    let values ← if ← testSym .assign then exprList fuel else pure []
    let line ← lastLine
    checkLocals names.length
    let values := values.map (Expr.settle line)
    declare (withConstant names values)
    if names.any fun l => isClose l.binding then modifyBlock fun b => { b with insideClose := true }
    return [.locals (names.map fun l => (l.name, isClose l.binding)) values line]

/-- A label after its name. A label that only empty statements follow counts as the end of its block. -/
def labelStmt : Nat → Bytes → Nat → Parse (List Stmt)
  | 0, _, _ => failNear (bytes "chunk has too many syntax levels")
  | fuel + 1, name, line => do
    expectSym .dcolon
    let skipped ← emptyStatements fuel
    match ← findLabel name with
    | some l =>
      failHere (bytes "label '" ++ name ++ bytes ("' already defined on line " ++ toString l.line))
    | none => pure ()
    let fs ← func
    let blockActive := (fs.blocks.head?.map BlockScope.active).getD 0
    let active := if endsBlock false (← currentToken) then blockActive else fs.locals.length
    let depth := (← scopeDepth) - (fs.locals.length - active)
    let l : Label := ⟨name, line, active⟩
    modifyBlock fun b => { b with labels := b.labels ++ [l] }
    solve l
    return .label name depth :: skipped

/-- Semicolons and further labels. -/
def emptyStatements : Nat → Parse (List Stmt)
  | 0 => failNear (bytes "chunk has too many syntax levels")
  | fuel + 1 => do
    match ← currentToken with
    | .sym .semi | .sym .dcolon => do
      let ss ← nested (statement fuel)
      return ss ++ (← emptyStatements fuel)
    | _ => return []

/-- A call or an assignment. -/
def exprStmt : Nat → Parse (List Stmt)
  | 0 => failNear (bytes "chunk has too many syntax levels")
  | fuel + 1 => do
    let (e, name?) ← primary fuel
    let full ← suffixes fuel e
    let t ← currentToken
    if t = .sym .assign || t = .sym .comma then
      let name? := if (constant? full).isSome then name? else none
      let (targets, values) ← assignment fuel full name?
      let line ← lastLine
      return [.assign (targets.map (Expr.settle line)) (values.map (Expr.settle line))]
    else if full.isCall then return [.call full]
    else failNear (bytes "syntax error")

/-- `{ ',' suffixed } '=' explist` after the first target. -/
def assignment : Nat → Expr → Option Bytes → Parse (List Expr × List Expr)
  | 0, _, _ => failNear (bytes "chunk has too many syntax levels")
  | fuel + 1, target, name? => do
    let isPlace := match target with
      | .var _ => true
      | .index _ _ _ => true
      | _ => name?.isSome
    if !isPlace then failNear (bytes "syntax error")
    checkAssignable name? target
    if ← testSym .comma then nested do
      let (e, next?) ← primary fuel
      let full ← suffixes fuel e
      let next? := if (constant? full).isSome then next? else none
      let (targets, values) ← assignment fuel full next?
      return (target :: targets, values)
    else
      expectSym .assign
      return ([target], ← exprList fuel)

end

/-- A whole program as a function with a variable number of arguments. -/
def program (fuel : Nat) : Parse Func := do
  checkFailure (← get).tokens
  enterBlock false
  let body ← statements fuel
  check .eof
  leaveBlock
  return .mk 0 true body 0 (← get).source

end Parser

/-- Reads a program; `source` is the name of its chunk in messages. -/
def parse (source program : Bytes) : Except SyntaxError Func :=
  let (tokens, failure) := lex program
  -- every token begins at most some twenty nested readers
  let fuel := 20 * tokens.length + 40
  ((Parser.program fuel).run ⟨tokens, failure, 1, [Parser.mainScope], 0, source⟩).map (·.1)

end Scratchpad.Lua
