import Scratchpad.Lua.Operation

/-!
# The meaning of programs

`eval` and `exec` give expressions and statements their meaning as computations. Loops and blocks with labels become
`Loop`s, whose rounds `round` describes; `invoke` is what the call of a function of a program does.
-/

namespace Scratchpad.Lua

namespace Meaning

open Scratchpad.Lua.Comp Operation

/-! ## Variables and places -/

/-- The cell of a variable. -/
def cellOf (ctx : Context) (v : VarRef) : Nat :=
  ctx.scope.getD v.distance 0

def spotAt (ctx : Context) (line : Nat) : Spot :=
  .ofLine ctx.source line

def siteAt (ctx : Context) (line : Nat) (origin : Option Origin) : Site :=
  { position := some ⟨ctx.source, line⟩, origin, yieldable := true }

/-- The context with further variables; the last one is innermost. -/
def extend (ctx : Context) (cells : List Nat) : Context :=
  { ctx with scope := cells.reverse ++ ctx.scope }

/-- As many values as there are places for; `nil` where there is none. -/
def adjust : Nat → List Value → List Value
  | 0, _ => []
  | n + 1, [] => .nil :: adjust n []
  | n + 1, v :: vs => v :: adjust n vs

/-- What a value is assigned to. -/
inductive Place where
  | cell (i : Nat)
  | field (obj key : Value) (origin : Option Origin) (line : Nat)

def store (ctx : Context) (p : Place) (v : Value) : Comp Unit :=
  match p with
  | .cell i => update fun s => s.setCell i v
  | .field obj key o line => setIndex (spotAt ctx line) obj key v o

/-- Stores values, the last one first. -/
def storeAll (ctx : Context) : List Place → List Value → Comp Unit
  | p :: ps, v :: vs => do
    storeAll ctx ps vs
    store ctx p v
  | _, _ => pure ()

/-! ## Expressions -/

/-- The number of positional fields whose count is known. -/
def itemCount : List Field → Nat
  | [] => 0
  | [.item e] => if e.isMulti then 0 else 1
  | .item _ :: fs => itemCount fs + 1
  | .keyed _ _ _ :: fs => itemCount fs

def keyedCount : List Field → Nat
  | [] => 0
  | .item _ :: fs => keyedCount fs
  | .keyed _ _ _ :: fs => keyedCount fs + 1

/-- The table with its positional fields filled in, as far as there are positions for them. -/
def fillItems (vs : List Value) (t : Table) : Table :=
  let vs := vs.take Table.maxItems
  let n := vs.length
  let covered (k : Value) : Bool := (Table.positive? k).any fun i => i ≤ n
  { t with items := vs.toArray ++ t.items.extract n t.items.size, others := t.others.filter fun e => !covered e.1 }

mutual

/-- All values of an expression. -/
def eval (ctx : Context) : Expr → Comp (List Value)
  | .nil => pure [.nil]
  | .bool b => pure [.bool b]
  | .number n => pure [.ofNumber n]
  | .str s => pure [.str s]
  | .dots => pure ctx.extra
  | .var v => read fun s => [s.cell (cellOf ctx v)]
  | .index obj key line => do
    let o ← eval ctx obj
    let k ← eval ctx key
    let r ← index (spotAt ctx line) (first o) (first k) obj.origin?
    return [r]
  | .call fn args line => do
    let f ← eval ctx fn
    let vs ← evalList ctx args
    call (first f) vs (siteAt ctx line fn.origin?)
  | .method obj name args nameLine line => do
    let o := first (← eval ctx obj)
    let f ← index (spotAt ctx nameLine) o (.str name) obj.origin?
    let vs ← evalList ctx args
    call f (o :: vs) (siteAt ctx line (some ⟨"method", name⟩))
  | .function f => do
    let v ← newClosure ⟨f, ctx.scope⟩
    return [v]
  | .unary op e line => do
    let v ← eval ctx e
    let r ← unary (spotAt ctx line) op (first v) e.origin?
    return [r]
  | .binary op l r line => do
    let a ← eval ctx l
    let b ← eval ctx r
    let c ← binary (spotAt ctx line) op (first a) (first b) l.origin? r.origin?
    return [c]
  | .and l r => do
    let a := first (← eval ctx l)
    if a.isTrue then (fun b => [first b]) <$> eval ctx r else return [a]
  | .or l r => do
    let a := first (← eval ctx l)
    if a.isTrue then return [a] else (fun b => [first b]) <$> eval ctx r
  | .paren e => (fun vs => [first vs]) <$> eval ctx e
  | .table fields => do
    let t ← newTable { items := Array.replicate (itemCount fields) .nil, room := Table.powerFor (keyedCount fields) }
    match t with
    | .table id => do
      let vs ← evalFields ctx id fields
      update fun s => s.modifyTable id (fillItems vs)
      return [t]
    | _ => return [t]

/-- The values of a list of expressions: one of each, and all of the last one. -/
def evalList (ctx : Context) : List Expr → Comp (List Value)
  | [] => pure []
  | e :: es => do
    let vs ← eval ctx e
    match es with
    | [] => return vs
    | _ => do
      let rest ← evalList ctx es
      return first vs :: rest

/-- Sets the keyed fields of the table `id` and yields the values of the positional ones. -/
def evalFields (ctx : Context) (id : Nat) : List Field → Comp (List Value)
  | [] => pure []
  | .item e :: fs => do
    let vs ← eval ctx e
    match fs with
    | [] => return vs
    | _ => do
      let rest ← evalFields ctx id fs
      return first vs :: rest
  | .keyed k v line :: fs => do
    let key := first (← eval ctx k)
    let value := first (← eval ctx v)
    rawSet (spotAt ctx line) id key value
    evalFields ctx id fs

end

/-- One value of an expression. -/
def evalOne (ctx : Context) (e : Expr) : Comp Value :=
  first <$> eval ctx e

/-- The truth of a condition. -/
def evalCond (ctx : Context) (e : Expr) : Comp Bool :=
  (fun vs => (first vs).isTrue) <$> eval ctx e

/-- A target of an assignment as a place. -/
def evalPlace (ctx : Context) : Expr → Comp Place
  | .var v => pure (.cell (cellOf ctx v))
  | .index obj key line => do
    let o ← evalOne ctx obj
    let k ← evalOne ctx key
    return .field o k obj.origin? line
  | _ => pure (.cell 0)

def evalPlaces (ctx : Context) : List Expr → Comp (List Place)
  | [] => pure []
  | e :: es => do
    let p ← evalPlace ctx e
    let ps ← evalPlaces ctx es
    return p :: ps

/-! ## Counting loops -/

/-- The error of a bound of a loop that is no number. -/
def boundError {α : Type} (spot : Spot) (what : String) (v : Value) : Comp α := do
  let t ← read fun s => s.typeText v
  raise spot (bytes ("bad 'for' " ++ what ++ " (number expected, got ") ++ t ++ bytes ")")

def largest : Int64 := Int64.maxValue

def smallest : Int64 := Int64.minValue

/-- The last value that a loop over integers may reach; none if it has no round. -/
def integerStop (start step : Int64) (stop : Number) : Option Int64 :=
  let clipped : Option Int64 :=
    match stop with
    | .int i => some i
    | .float x =>
      let rounded := if x.isFinite then (if step < 0 then some x.ceilInt else some x.floorInt) else none
      match rounded with
      | some i =>
        if i < smallest.toInt then (if 0 < step then none else some smallest)
        else if largest.toInt < i then (if step < 0 then none else some largest)
        else some (Int64.ofInt i)
      | none =>
        if Binary64.zero.lt x then (if step < 0 then none else some largest)
        else (if 0 < step then none else some smallest)
  match clipped with
  | none => none
  | some s => if (if 0 < step then start ≤ s else s ≤ start) then some s else none

/-- A loop over numbers, with its bounds checked; none if it has no round. -/
def countingLoop (spot : Spot) (start stop step : Value) (body : List Stmt) (ctx : Context) : Comp (Option Loop) :=
  match start, step with
  | .int i, .int d => do
    if d = 0 then raise spot (bytes "'for' step is zero")
    else match stop.coerceNumber? with
      | none => boundError spot "limit" stop
      | some n =>
        match integerStop i d n with
        | none => return none
        | some s => return some (.counting i ((s.toInt - i.toInt) / d.toInt).toNat d body ctx)
  | start, step => do
    match stop.coerceNumber? with
    | none => boundError spot "limit" stop
    | some n =>
      match step.coerceNumber? with
      | none => boundError spot "step" step
      | some d =>
        match start.coerceNumber? with
        | none => boundError spot "initial value" start
        | some i =>
          let d := Arith.toFloat d
          let i := Arith.toFloat i
          let n := Arith.toFloat n
          if d.sameValue .zero then raise spot (bytes "'for' step is zero")
          else if (if Binary64.zero.lt d then n.lt i else i.lt n) then return none
          else return some (.stepping i n d body ctx)

/-! ## Statements -/

def runLoop (l : Loop) : Comp Flow :=
  fun k => .loop l k

def isLabel : Stmt → Bool
  | .label _ _ => true
  | _ => false

/-- The statements behind a label of a block and the number of variables in scope there. -/
def behindLabel? (name : Bytes) : List Stmt → Option (List Stmt × Nat)
  | [] => none
  | .label n depth :: rest => if n = name then some (rest, depth) else behindLabel? name rest
  | _ :: rest => behindLabel? name rest

/-- A call that takes the place of the running function where possible. -/
def tailCall (f : Value) (args : List Value) (site : Site) : Comp Flow :=
  fun k => .tailCall f args site fun vs => k (.ret vs)

/-- Runs `body` and closes a value when it ends; `nil` and `false` need no closing. -/
def closing (spot : Spot) (name : Bytes) (v : Value) (body : Comp Flow) : Comp Flow := do
  if v.isTrue then
    let handler ← read fun s => s.metamethod v (bytes "__close")
    if handler.isNil then raise spot (bytes "variable '" ++ name ++ bytes "' got a non-closable value")
    else fun k => .closing v (spot.metaSite "close") (body fun flow => .leave flow) k
  else body

/-- The variable of a declaration that is to be closed, with its value. -/
def closeTarget? (names : List (Bytes × Bool)) (vs : List Value) : Option (Bytes × Value) :=
  ((names.zip vs).find? fun e => e.1.2).map fun e => (e.1.1, e.2)

/-- Runs the statements of a block: all of them in a row, as `row` does, or from label to label. -/
@[inline] def asBlock (ctx : Context) (body : List Stmt) (row : Comp Flow) : Comp Flow :=
  if body.any isLabel then runLoop (.labelled body body ctx) else row

mutual

/-- A statement that declares nothing. -/
def exec (ctx : Context) : Stmt → Comp Flow
  | .assign [target] values => do
    let p ← evalPlace ctx target
    let vs ← evalList ctx values
    store ctx p (first vs)
    return .normal
  | .assign targets values => do
    let ps ← evalPlaces ctx targets
    let vs ← evalList ctx values
    storeAll ctx ps (adjust ps.length vs)
    return .normal
  | .call e => do
    let _ ← eval ctx e
    return .normal
  | .block body => asBlock ctx body (execList ctx body)
  | .whileLoop cond body => runLoop (.whileLoop cond body ctx)
  | .repeatLoop body => runLoop (.repeatLoop body ctx)
  | .branch cond thenBody elseBody => do
    if ← evalCond ctx cond then asBlock ctx thenBody (execList ctx thenBody)
    else asBlock ctx elseBody (execList ctx elseBody)
  | .numericFor start stop step body line => do
    let a ← evalOne ctx start
    let b ← evalOne ctx stop
    let c ← evalOne ctx step
    match ← countingLoop (spotAt ctx line) a b c body ctx with
    | some l => runLoop l
    | none => return .normal
  | .genericFor count values body line callLine => do
    let vs ← evalList ctx values
    match adjust 4 vs with
    | [f, state, control, closer] =>
      let rounds := runLoop (.generic f state control count body callLine ctx)
      if closer.isTrue then closing (spotAt ctx line) (bytes "(for state)") closer rounds else rounds
    | _ => return .normal
  | .ret values tail => do
    match tail, values with
    | true, [.call fn args line] => do
      let f ← evalOne ctx fn
      let vs ← evalList ctx args
      tailCall f vs (siteAt ctx line fn.origin?)
    | true, [.method obj name args nameLine line] => do
      let o ← evalOne ctx obj
      let f ← index (spotAt ctx nameLine) o (.str name) obj.origin?
      let vs ← evalList ctx args
      tailCall f (o :: vs) (siteAt ctx line (some ⟨"method", name⟩))
    | _, values => do
      let vs ← evalList ctx values
      return .ret vs
  | .brk => return .brk
  | .goto name => return .goto name ctx.scope
  | _ => return .normal

/-- The statements of a block without labels, or from one of its labels on. -/
def execList (ctx : Context) : List Stmt → Comp Flow
  | [] => return .normal
  | .locals names values line :: rest => do
    let vs ← evalList ctx values
    let vs := adjust names.length vs
    let cells ← newCells vs
    let inner := extend ctx cells
    match closeTarget? names vs with
    | some (name, v) => closing (spotAt ctx line) name v (asBlock inner rest (execList inner rest))
    | none => execList inner rest
  | .localFunction f :: rest => do
    let cells ← newCells [.nil]
    let inner := extend ctx cells
    let v ← newClosure ⟨f, inner.scope⟩
    update fun s => s.setCell (cells.headD 0) v
    execList inner rest
  | s :: rest => do
    match ← exec ctx s with
    | .normal => execList ctx rest
    | flow => return flow

end

/-- The statements of a block. -/
def execBlock (ctx : Context) (body : List Stmt) : Comp Flow :=
  asBlock ctx body (execList ctx body)

/-! ## Rounds and calls -/

/-- What follows the body of a round: another round `next`, or the end of the loop. -/
def afterBody (next : Loop) (flow : Flow) : Prog :=
  match flow with
  | .normal => .again next
  | .brk => .leave .normal
  | flow => .leave flow

/-- The control values of a round as variables. -/
def withValues (ctx : Context) (vs : List Value) (body : List Stmt) : Comp Flow := do
  let cells ← newCells vs
  execBlock (extend ctx cells) body

/-- One round of a loop. -/
def round (l : Loop) : Prog :=
  match l with
  | .whileLoop cond body ctx =>
    evalCond ctx cond fun b =>
      if b then execBlock ctx body (afterBody l) else .leave .normal
  | .repeatLoop body ctx => execBlock ctx body (afterBody l)
  | .counting i left step body ctx =>
    withValues ctx [.int i] body fun flow =>
      match flow, left with
      | .normal, 0 => .leave .normal
      | flow, left => afterBody (.counting (i + step) (left - 1) step body ctx) flow
  | .stepping x stop step body ctx =>
    withValues ctx [.float x] body fun flow =>
      let next := x.add step
      let more := if Binary64.zero.lt step then next.le stop else stop.le next
      match flow with
      | .normal => if more then .again (.stepping next stop step body ctx) else .leave .normal
      | flow => afterBody l flow
  | .generic f state control count body line ctx =>
    let site := siteAt ctx line (some ⟨"for iterator", bytes "for iterator"⟩)
    call f [state, control] site fun vs =>
      let c := first vs
      if c.isNil then .leave .normal
      else withValues ctx (adjust count vs) body (afterBody (.generic f state c count body line ctx))
  | .labelled whole rest ctx =>
    execList ctx rest fun flow =>
      match flow with
      | .goto name scope =>
        match behindLabel? name whole with
        | some (rest, depth) =>
          .again (.labelled whole rest { ctx with scope := scope.drop (scope.length - depth) })
        | none => .leave flow
      | flow => .leave flow

/-- What the call of a function of a program does. -/
def invoke (c : Closure) (args : List Value) : Prog :=
  let n := c.func.params
  let extra := if c.func.vararg then args.drop n else []
  let body (scope : Scope) : Prog :=
    execBlock ⟨scope, extra, c.func.source⟩ c.func.body fun flow =>
      match flow with
      | .ret vs => .done vs
      | _ => .done []
  newCells (adjust n args) fun cells => body (cells.reverse ++ c.scope)

end Meaning

end Scratchpad.Lua
