import Scratchpad.Proofs.Lua.Parser.Reads

/-!
# What holds of all readers

A property of actions that holds of the small ones and is kept when actions are put together (`Closed`) holds of all
readers of the grammar, whatever their fuel (`Closed.readers`). A property that is closed does not have to say what an
action that looks at the depth of nesting does: only `nested` looks at it. So a reader that succeeds does the same less
deep (`sinks`).
-/

namespace Scratchpad.Lua.Parser

variable {α β : Type}

/-- The property holds of the actions that readers are made of and is kept by the ways to put them together. -/
structure Closed (Φ : {α : Type} → Parse α → Prop) : Prop where
  pure : ∀ {α : Type} (r : α), Φ (Pure.pure r : Parse α)
  bind : ∀ {α β : Type} {p : Parse α} {q : α → Parse β}, Φ p → (∀ r, Φ (q r)) → Φ (p >>= q)
  fails : ∀ {α : Type} {a : Parse α}, (∀ s, ∃ e, a.run s = .error e) → Φ a
  get : ∀ {α : Type} {q : State → Parse α}, (∀ s d, q { s with level := d } = q s) → (∀ s, Φ (q s)) → Φ (get >>= q)
  change : ∀ g : List FuncScope → List FuncScope, Φ (modify fun s => { s with funcs := g s.funcs } : Parse PUnit)
  advance : Φ advance
  nested : ∀ {α : Type} {p : Parse α}, Φ p → Φ (nested p)

/-- Either branch of a condition has the property. -/
theorem holds_ite {Φ : {α : Type} → Parse α → Prop} {b : Prop} [Decidable b] {p p' : Parse α} (h : Φ p) (h' : Φ p') :
    Φ (if b then p else p') := by
  split
  · exact h
  · exact h'

namespace Closed

variable {Φ : {α : Type} → Parse α → Prop} (c : Closed Φ)

include c

/-! ## Small actions -/

section Actions

variable {p : Parse α}

theorem thenPure {r : α → β} (h : Φ p) : Φ (p >>= fun a => Pure.pure (r a)) :=
  c.bind h fun _ => c.pure _

theorem failNear (message : Bytes) : Φ (failNear message : Parse α) :=
  c.fails fun _ => ⟨_, rfl⟩

theorem failHere (message : Bytes) : Φ (failHere message : Parse α) :=
  c.fails fun _ => ⟨_, rfl⟩

theorem current : Φ current :=
  c.get (fun _ _ => rfl) fun _ => c.pure _

theorem currentToken : Φ currentToken :=
  c.thenPure c.current

theorem currentLine : Φ currentLine :=
  c.thenPure c.current

theorem lastLine : Φ lastLine :=
  c.get (fun _ _ => rfl) fun _ => c.pure _

theorem checkFailure (ts : List Lexeme) : Φ (checkFailure ts) := by
  refine holds_ite (c.get (fun _ _ => rfl) fun s => ?_) (c.pure _)
  split
  · exact c.fails fun _ => ⟨_, rfl⟩
  · exact c.pure _

theorem lookahead : Φ lookahead :=
  c.get (fun _ _ => rfl) fun _ => c.bind (c.checkFailure _) fun _ => c.pure _

theorem testNext (t : Token) : Φ (testNext t) :=
  c.bind c.currentToken fun _ => holds_ite (c.thenPure c.advance) (c.pure _)

theorem expect (t : Token) : Φ (expect t) :=
  c.bind (c.bind c.currentToken fun _ => holds_ite (c.failNear _) (c.pure _)) fun _ => c.advance

theorem expectMatch (closer opener : Token) (line : Nat) : Φ (expectMatch closer opener line) := by
  rw [expectMatch_eq]
  exact c.bind c.currentToken fun _ => holds_ite c.advance (c.fails (failUnclosed_fails closer opener line))

theorem expectName : Φ expectName := by
  refine c.bind c.currentToken fun t => ?_
  split
  · exact c.thenPure c.advance
  · exact c.failNear _

end Actions

/-! ## Scopes -/

section Scopes

variable {p : Parse α}

theorem func : Φ func :=
  c.get (fun _ _ => rfl) fun _ => c.pure _

theorem modifyFunc (g : FuncScope → FuncScope) : Φ (modifyFunc g) := by
  have hmodify : Parser.modifyFunc g = modify fun s => { s with funcs := s.funcs.modifyHead g } := by
    refine congrArg modify (funext fun s => ?_)
    rcases s with ⟨_, _, _, _ | ⟨fs, rest⟩, _, _⟩ <;> rfl
  rw [hmodify]
  exact c.change fun funcs => funcs.modifyHead g

theorem modifyBlock (g : BlockScope → BlockScope) : Φ (modifyBlock g) :=
  c.modifyFunc _

theorem activeCount : Φ activeCount :=
  c.thenPure c.func

theorem scopeDepth : Φ scopeDepth :=
  c.get (fun _ _ => rfl) fun _ => c.pure _

theorem checkLocals (count : Nat) : Φ (checkLocals count) :=
  c.bind c.func fun _ => holds_ite (c.failNear _) (c.pure _)

theorem declare (names : List Local) : Φ (declare names) :=
  c.modifyFunc _

theorem declared? (name : Bytes) : Φ (declared? name) := by
  refine c.get (fun _ _ => rfl) fun s => ?_
  split
  · split <;> exact c.pure _
  · exact c.pure _

theorem envExpr : Φ envExpr := by
  refine c.bind (c.declared? _) fun r => ?_
  split
  · exact c.pure _
  · exact c.thenPure c.scopeDepth

theorem nameExpr (name : Bytes) : Φ (nameExpr name) := by
  refine holds_ite c.envExpr (c.bind (c.declared? _) fun r => ?_)
  split
  · exact c.pure _
  · exact c.thenPure c.envExpr

theorem findLabel (name : Bytes) : Φ (findLabel name) :=
  c.thenPure c.func

theorem forIn {γ σ : Type} {g : γ → σ → Parse (ForInStep σ)} (h : ∀ x r, Φ (g x r)) (xs : List γ) (r : σ) :
    Φ (forIn xs r g) := by
  induction xs generalizing r with
  | nil => exact c.pure _
  | cons x xs ih =>
    rw [List.forIn_cons]
    refine c.bind (h x r) fun step => ?_
    cases step with
    | done r => exact c.pure _
    | yield r => exact ih r

theorem solve (l : Label) : Φ (solve l) := by
  refine c.bind (by rw [map_eq_pure_bind]; exact c.thenPure c.func) fun b => ?_
  refine c.bind (c.forIn (fun g _ => holds_ite ?_ (c.pure _)) _ _) fun _ => c.modifyBlock _
  exact c.thenPure (c.bind c.func fun _ => c.failHere _)

theorem addPending (name : Bytes) (line : Nat) : Φ (addPending name line) :=
  c.bind c.activeCount fun _ => c.modifyBlock _

theorem enterBlock (isLoop : Bool) : Φ (enterBlock isLoop) :=
  c.modifyFunc _

theorem leaveBlock : Φ leaveBlock := by
  refine c.bind c.func fun fs => ?_
  rcases fs.blocks with _ | ⟨b, _ | ⟨outer, more⟩⟩
  · exact c.pure _
  · refine c.bind (c.modifyFunc _) fun _ => ?_
    split
    · exact c.pure _
    · unfold failUndefined
      exact holds_ite (c.failHere _) (c.failHere _)
  · exact c.modifyFunc _

theorem inBlock {isLoop : Bool} (h : Φ p) : Φ (inBlock isLoop p) :=
  c.bind (c.enterBlock isLoop) fun _ => c.bind h fun _ => c.thenPure c.leaveBlock

theorem checkAssignable (name? : Option Bytes) (e : Expr) : Φ (checkAssignable name? e) := by
  unfold Parser.checkAssignable
  dsimp only
  split
  · exact c.pure _
  · refine c.bind (c.declared? _) fun r => ?_
    split
    · exact c.failHere _
    · exact c.failHere _
    · exact c.failHere _
    · exact c.pure _

end Scopes

end Closed

/-! ## The readers of the grammar -/

/-- The property holds of the readers with the fuel `n`. -/
structure Readers (Φ : {α : Type} → Parse α → Prop) (n : Nat) : Prop where
  subExpr : ∀ limit, Φ (subExpr n limit)
  operators : ∀ limit e, Φ (operators n limit e)
  simpleExpr : Φ (simpleExpr n)
  primary : Φ (primary n)
  suffixed : Φ (suffixed n)
  suffixes : ∀ e, Φ (suffixes n e)
  bracketKey : Φ (bracketKey n)
  callArgs : Φ (callArgs n)
  exprList : Φ (exprList n)
  constructor : Φ (constructor n)
  fieldList : Φ (fieldList n)
  field : Φ (field n)
  funcBody : ∀ isMethod line, Φ (funcBody n isMethod line)
  statements : Φ (statements n)
  block : Φ (block n)
  returnStmt : Φ (returnStmt n)
  statement : Φ (statement n)
  ifStmt : ∀ line, Φ (ifStmt n line)
  forStmt : ∀ line, Φ (forStmt n line)
  forBody : ∀ names line, Φ (forBody n names line)
  functionStmt : ∀ line, Φ (functionStmt n line)
  functionName : ∀ target, Φ (functionName n target)
  localFunction : Φ (localFunction n)
  localStmt : Φ (localStmt n)
  labelStmt : ∀ name line, Φ (labelStmt n name line)
  emptyStatements : Φ (emptyStatements n)
  exprStmt : Φ (exprStmt n)
  assignment : ∀ target name?, Φ (assignment n target name?)

namespace Closed

variable {n : Nat} {Φ : {α : Type} → Parse α → Prop} (c : Closed Φ)

include c

/-! ## Expressions -/

theorem subExpr (k : Readers Φ n) (limit : Nat) : Φ (subExpr (n + 1) limit) := by
  rw [Parser.subExpr]
  refine c.nested (c.bind c.currentToken fun t => ?_)
  dsimp only
  split
  · refine c.bind c.currentLine fun line => c.bind c.advance fun _ => c.bind (k.subExpr _) fun e => ?_
    exact c.bind c.lastLine fun _ => c.bind (c.pure _) fun first => k.operators limit first
  · exact c.bind k.simpleExpr fun first => k.operators limit first

theorem operators (k : Readers Φ n) (limit : Nat) (e : Expr) : Φ (operators (n + 1) limit e) := by
  rw [Parser.operators]
  refine c.bind c.currentToken fun t => ?_
  split
  · refine holds_ite (c.bind c.currentLine fun line => c.bind c.advance fun _ => ?_) (c.pure _)
    refine c.bind c.lastLine fun _ => c.bind (k.subExpr _) fun r => c.bind c.lastLine fun _ => ?_
    exact k.operators limit _
  · exact c.pure _

theorem simpleExpr (k : Readers Φ n) : Φ (simpleExpr (n + 1)) := by
  rw [Parser.simpleExpr]
  refine c.bind c.currentToken fun t => ?_
  split
  · exact c.thenPure c.advance
  · exact c.thenPure c.advance
  · exact c.thenPure c.advance
  · exact c.thenPure c.advance
  · exact c.thenPure c.advance
  · exact c.bind c.func fun _ => holds_ite (c.thenPure c.advance) (c.failNear _)
  · exact k.constructor
  · exact c.bind c.currentLine fun line => c.bind c.advance fun _ => c.thenPure (k.funcBody _ _)
  · exact k.suffixed

theorem primary (k : Readers Φ n) : Φ (primary (n + 1)) := by
  rw [Parser.primary]
  refine c.bind c.currentToken fun t => ?_
  split
  · exact c.bind c.advance fun _ => c.thenPure (c.nameExpr _)
  · refine c.bind c.currentLine fun line => c.bind c.advance fun _ => c.bind (k.subExpr 0) fun e => ?_
    exact c.bind (c.expectMatch _ _ _) fun _ => c.thenPure c.lastLine
  · exact c.failNear _

theorem suffixed (k : Readers Φ n) : Φ (suffixed (n + 1)) := by
  rw [Parser.suffixed]
  exact c.bind k.primary fun r => k.suffixes r.1

theorem suffixes (k : Readers Φ n) (e : Expr) : Φ (suffixes (n + 1) e) := by
  rw [Parser.suffixes]
  refine c.bind c.currentToken fun t => ?_
  split
  · refine c.bind c.lastLine fun _ => c.bind c.advance fun _ => c.bind c.expectName fun name => ?_
    exact k.suffixes _
  · exact c.bind c.lastLine fun _ => c.bind k.bracketKey fun key => k.suffixes _
  · refine c.bind c.advance fun _ => c.bind c.lastLine fun _ => c.bind c.expectName fun name => ?_
    exact c.bind c.lastLine fun _ => c.bind k.callArgs fun r => k.suffixes _
  · exact c.bind c.lastLine fun _ => c.bind k.callArgs fun r => k.suffixes _
  · exact c.bind c.lastLine fun _ => c.bind k.callArgs fun r => k.suffixes _
  · exact c.bind c.lastLine fun _ => c.bind k.callArgs fun r => k.suffixes _
  · exact c.pure _

theorem bracketKey (k : Readers Φ n) : Φ (bracketKey (n + 1)) := by
  rw [Parser.bracketKey]
  refine c.bind c.advance fun _ => c.bind (k.subExpr 0) fun key => c.bind c.lastLine fun _ => ?_
  exact c.thenPure (c.expect _)

theorem callArgs (k : Readers Φ n) : Φ (callArgs (n + 1)) := by
  rw [Parser.callArgs]
  refine c.bind c.currentLine fun line => c.bind c.currentToken fun t => ?_
  split
  · refine c.bind c.advance fun _ => c.bind (c.testNext _) fun r => holds_ite (c.pure _) ?_
    refine c.bind k.exprList fun args => c.bind (c.expectMatch _ _ _) fun _ => ?_
    exact c.thenPure c.lastLine
  · exact c.thenPure k.constructor
  · exact c.thenPure c.advance
  · exact c.failNear _

theorem exprList (k : Readers Φ n) : Φ (exprList (n + 1)) := by
  rw [Parser.exprList]
  refine c.bind (k.subExpr 0) fun e => c.bind (c.testNext _) fun r => holds_ite ?_ (c.pure _)
  exact c.bind c.lastLine fun _ => c.thenPure k.exprList

theorem constructor (k : Readers Φ n) : Φ (constructor (n + 1)) := by
  rw [Parser.constructor]
  refine c.bind c.currentLine fun line => c.bind (c.expect _) fun _ => c.bind k.fieldList fun fields => ?_
  exact c.bind (c.expectMatch _ _ _) fun _ => c.thenPure c.lastLine

theorem fieldList (k : Readers Φ n) : Φ (fieldList (n + 1)) := by
  have hseparator : Φ fieldSeparator :=
    c.bind (c.testNext _) fun r => holds_ite (c.pure _) (c.testNext _)
  rw [Parser.fieldList]
  refine c.bind c.currentToken fun t => holds_ite (c.pure _) (c.bind k.field fun f => c.bind hseparator fun r => ?_)
  exact holds_ite (c.bind c.lastLine fun line => c.thenPure k.fieldList) (c.pure _)

theorem field (k : Readers Φ n) : Φ (field (n + 1)) := by
  have hvalue : ∀ key : Expr, Φ (do
      expectSym .assign
      let v ← Parser.subExpr n 0
      let line ← Parser.lastLine
      return Field.keyed key (v.settle line) line) := fun key =>
    c.bind (c.expect _) fun _ => c.bind (k.subExpr 0) fun v => c.thenPure c.lastLine
  rw [Parser.field]
  refine c.bind c.currentToken fun t => ?_
  split
  · refine c.bind c.lookahead fun u => holds_ite (c.bind c.advance fun _ => hvalue _) ?_
    exact c.thenPure (k.subExpr 0)
  · exact c.bind k.bracketKey fun key => hvalue key
  · exact c.thenPure (k.subExpr 0)

/-! ## Functions -/

theorem moreNames : ∀ n, Φ (moreNames n)
  | 0 => c.failNear _
  | n + 1 => by
    rw [Parser.moreNames]
    refine c.bind (c.testNext _) fun r => holds_ite ?_ (c.pure _)
    exact c.bind c.expectName fun name => c.thenPure (moreNames n)

theorem paramList : ∀ n, Φ (paramList n)
  | 0 => c.failNear _
  | n + 1 => by
    rw [Parser.paramList]
    refine c.bind c.currentToken fun t => ?_
    split
    · refine c.bind c.advance fun _ => c.bind (c.testNext _) fun r => holds_ite ?_ (c.pure _)
      exact c.thenPure (paramList n)
    · exact c.thenPure c.advance
    · exact c.failNear _

theorem angleBinding : Φ angleBinding := by
  refine c.bind (c.testNext _) fun r => holds_ite ?_ (c.pure _)
  refine c.bind c.expectName fun name => c.bind (c.expect _) fun _ => holds_ite (c.pure _) (holds_ite (c.pure _) ?_)
  exact c.failHere _

theorem attributedNames : ∀ n closing, Φ (attributedNames n closing)
  | 0, _ => c.failNear _
  | n + 1, closing => by
    rw [Parser.attributedNames]
    refine c.bind c.expectName fun name => c.bind c.angleBinding fun b => ?_
    refine holds_ite (c.bind (c.failHere _) fun _ => ?_) ?_
    all_goals
      refine c.bind (c.testNext _) fun r => holds_ite ?_ (c.thenPure (c.pure _))
      exact c.thenPure (attributedNames n _)

theorem funcBody (k : Readers Φ n) (isMethod : Bool) (line : Nat) : Φ (funcBody (n + 1) isMethod line) := by
  rw [Parser.funcBody]
  refine c.bind (c.change _) fun _ => c.bind (c.enterBlock _) fun _ => c.bind (c.expect _) fun _ => ?_
  refine c.bind c.currentToken fun t => ?_
  refine holds_ite (c.bind (c.pure _) ?none) (c.bind (c.paramList n) ?some)
  case none | some =>
    refine fun r => c.bind (c.checkLocals _) fun _ => c.bind (c.declare _) fun _ => c.bind (c.modifyFunc _) fun _ => ?_
    refine c.bind (c.expect _) fun _ => c.bind k.statements fun body => c.bind (c.expectMatch _ _ _) fun _ => ?_
    exact c.bind c.leaveBlock fun _ => c.bind (c.change _) fun _ => c.get (fun _ _ => rfl) fun _ => c.pure _

theorem functionStmt (k : Readers Φ n) (line : Nat) : Φ (functionStmt (n + 1) line) := by
  rw [Parser.functionStmt]
  refine c.bind c.expectName fun name => c.bind (c.nameExpr name) fun e => c.bind (k.functionName e) fun r => ?_
  exact c.bind (k.funcBody r.2 line) fun f => c.thenPure (c.checkAssignable _ _)

theorem functionName (k : Readers Φ n) (e : Expr) : Φ (functionName (n + 1) e) := by
  rw [Parser.functionName]
  refine c.bind c.currentToken fun t => ?_
  split
  · refine c.bind c.lastLine fun _ => c.bind c.advance fun _ => c.bind c.expectName fun name => ?_
    exact k.functionName _
  · exact c.bind c.lastLine fun _ => c.bind c.advance fun _ => c.thenPure c.expectName
  · exact c.pure _

/-! ## Statements -/

theorem statements (k : Readers Φ n) : Φ (statements (n + 1)) := by
  rw [Parser.statements]
  refine c.bind c.currentToken fun t => holds_ite (c.pure _) (holds_ite (c.thenPure (c.nested k.returnStmt)) ?_)
  exact c.bind (c.nested k.statement) fun ss => c.thenPure k.statements

theorem block (k : Readers Φ n) : Φ (block (n + 1)) := by
  rw [Parser.block]
  exact c.inBlock k.statements

theorem returnStmt (k : Readers Φ n) : Φ (returnStmt (n + 1)) := by
  rw [Parser.returnStmt]
  refine c.bind c.advance fun _ => c.bind c.currentToken fun t => ?_
  refine holds_ite (c.bind (c.pure _) ?none) (c.bind k.exprList ?some)
  case none | some =>
    exact fun values => c.bind c.lastLine fun _ => c.bind (c.testNext _) fun _ => c.thenPure c.func

theorem statement (k : Readers Φ n) : Φ (statement (n + 1)) := by
  rw [Parser.statement]
  refine c.bind c.currentLine fun line => c.bind c.currentToken fun t => ?_
  split
  · exact c.thenPure c.advance
  · exact c.bind c.advance fun _ => c.thenPure (k.ifStmt line)
  · refine c.bind c.advance fun _ => c.bind (k.subExpr 0) fun cond => c.bind c.lastLine fun _ => ?_
    refine c.inBlock (c.bind (c.expect _) fun _ => c.bind k.block fun body => ?_)
    exact c.thenPure (c.expectMatch _ _ _)
  · exact c.bind c.advance fun _ => c.bind k.block fun body => c.thenPure (c.expectMatch _ _ _)
  · exact k.forStmt line
  · refine c.bind c.advance fun _ => c.inBlock (c.inBlock (c.bind k.statements fun body => ?_))
    refine c.bind (c.expectMatch _ _ _) fun _ => c.bind (k.subExpr 0) fun cond => ?_
    exact c.thenPure c.lastLine
  · exact c.bind c.advance fun _ => c.thenPure (k.functionStmt line)
  · exact c.bind c.advance fun _ => c.bind (c.testNext _) fun r => holds_ite k.localFunction k.localStmt
  · exact c.bind c.advance fun _ => c.bind c.expectName fun name => k.labelStmt name line
  · exact c.bind c.advance fun _ => c.thenPure (c.addPending _ _)
  · refine c.bind c.advance fun _ => c.bind c.expectName fun name => c.bind (c.findLabel name) fun found => ?_
    split
    · exact c.thenPure (c.pure _)
    · exact c.thenPure (c.addPending _ _)
  · exact k.exprStmt

theorem ifStmt (k : Readers Φ n) (line : Nat) : Φ (ifStmt (n + 1) line) := by
  rw [Parser.ifStmt]
  refine c.bind (k.subExpr 0) fun cond => c.bind (c.expect _) fun _ => c.bind c.lastLine fun _ => ?_
  refine c.bind k.block fun body => c.bind c.currentToken fun t => ?_
  split
  · exact c.bind c.advance fun _ => c.thenPure (k.ifStmt line)
  · exact c.bind c.advance fun _ => c.bind k.block fun _ => c.thenPure (c.expectMatch _ _ _)
  · exact c.thenPure (c.expectMatch _ _ _)

theorem forBody (k : Readers Φ n) (names : List Bytes) (line : Nat) : Φ (forBody (n + 1) names line) := by
  rw [Parser.forBody]
  refine c.bind (c.expect _) fun _ => c.bind c.lastLine fun doLine => c.bind (c.inBlock ?_) fun body => ?_
  · exact c.bind (c.checkLocals _) fun _ => c.bind (c.declare _) fun _ => k.statements
  · exact c.thenPure (c.expectMatch _ _ _)

theorem forStmt (k : Readers Φ n) (line : Nat) : Φ (forStmt (n + 1) line) := by
  have hbound : Φ (do
      let e ← Parser.subExpr n 0
      return e.settle (← Parser.lastLine)) :=
    c.bind (k.subExpr 0) fun e => c.thenPure c.lastLine
  rw [Parser.forStmt]
  refine c.inBlock (c.bind c.advance fun _ => c.bind c.expectName fun name => c.bind c.currentToken fun t => ?_)
  split
  case h_1 =>
    refine c.bind c.advance fun _ => c.bind hbound fun start => c.bind (c.expect _) fun _ => ?_
    refine c.bind hbound fun stop => c.bind (c.testNext _) fun r => ?_
    refine holds_ite (c.bind hbound fun step => ?_) (c.bind (c.pure _) fun step => ?_)
    · exact c.thenPure (k.forBody _ _)
    · exact c.thenPure (k.forBody _ _)
  case h_2 | h_3 =>
    refine c.bind (c.moreNames n) fun more => c.bind (c.expect _) fun _ => c.bind c.currentLine fun _ => ?_
    refine c.bind k.exprList fun values => c.bind c.lastLine fun _ => c.bind (c.modifyBlock _) fun _ => ?_
    exact c.thenPure (k.forBody _ _)
  case h_4 => exact c.failNear _

theorem localFunction (k : Readers Φ n) : Φ (localFunction (n + 1)) := by
  rw [Parser.localFunction]
  refine c.bind c.expectName fun name => c.bind (c.checkLocals _) fun _ => c.bind (c.declare _) fun _ => ?_
  exact c.bind c.currentLine fun line => c.thenPure (k.funcBody false line)

theorem localStmt (k : Readers Φ n) : Φ (localStmt (n + 1)) := by
  rw [Parser.localStmt]
  refine c.bind (c.attributedNames n false) fun names => c.bind (c.testNext _) fun r => ?_
  refine holds_ite (c.bind k.exprList ?some) (c.bind (c.pure _) ?none)
  case none | some =>
    refine fun values => c.bind c.lastLine fun _ => c.bind (c.checkLocals _) fun _ => c.bind (c.declare _) fun _ => ?_
    exact holds_ite (c.thenPure (c.modifyBlock _)) (c.thenPure (c.pure _))

theorem labelStmt (k : Readers Φ n) (name : Bytes) (line : Nat) : Φ (labelStmt (n + 1) name line) := by
  rw [Parser.labelStmt]
  refine c.bind (c.expect _) fun _ => c.bind k.emptyStatements fun skipped => c.bind (c.findLabel name) fun found => ?_
  split
  · exact c.failHere _
  · refine c.bind c.func fun fs => c.bind c.currentToken fun t => c.bind c.scopeDepth fun _ => ?_
    exact c.bind (c.modifyBlock _) fun _ => c.thenPure (c.solve _)

theorem emptyStatements (k : Readers Φ n) : Φ (emptyStatements (n + 1)) := by
  rw [Parser.emptyStatements]
  refine c.bind c.currentToken fun t => ?_
  split
  · exact c.bind (c.nested k.statement) fun ss => c.thenPure k.emptyStatements
  · exact c.bind (c.nested k.statement) fun ss => c.thenPure k.emptyStatements
  · exact c.pure _

theorem exprStmt (k : Readers Φ n) : Φ (exprStmt (n + 1)) := by
  rw [Parser.exprStmt]
  refine c.bind k.primary fun r => c.bind (k.suffixes r.1) fun full => c.bind c.currentToken fun t => ?_
  refine holds_ite ?_ (holds_ite (c.pure _) (c.failNear _))
  exact c.bind (k.assignment _ _) fun r => c.thenPure c.lastLine

theorem assignment (k : Readers Φ n) (target : Expr) (name? : Option Bytes) :
    Φ (assignment (n + 1) target name?) := by
  rw [assignment.eq_def]
  refine holds_ite (c.bind (c.failNear _) fun _ => ?value) ?place
  case value | place =>
    refine c.bind (c.checkAssignable _ _) fun _ => c.bind (c.testNext _) fun r => holds_ite (c.nested ?_) ?_
    · exact c.bind k.primary fun r => c.bind (k.suffixes r.1) fun full => c.thenPure (k.assignment _ _)
    · exact c.bind (c.expect _) fun _ => c.thenPure k.exprList

/-- A closed property holds of all readers. -/
theorem readers : ∀ n, Readers Φ n
  | 0 => {
      subExpr := fun _ => by rw [Parser.subExpr]; exact c.failNear _
      operators := fun _ _ => by rw [Parser.operators]; exact c.failNear _
      simpleExpr := by rw [Parser.simpleExpr]; exact c.failNear _
      primary := by rw [Parser.primary]; exact c.failNear _
      suffixed := by rw [Parser.suffixed]; exact c.failNear _
      suffixes := fun _ => by rw [Parser.suffixes]; exact c.failNear _
      bracketKey := by rw [Parser.bracketKey]; exact c.failNear _
      callArgs := by rw [Parser.callArgs]; exact c.failNear _
      exprList := by rw [Parser.exprList]; exact c.failNear _
      constructor := by rw [Parser.constructor]; exact c.failNear _
      fieldList := by rw [Parser.fieldList]; exact c.failNear _
      field := by rw [Parser.field]; exact c.failNear _
      funcBody := fun _ _ => by rw [Parser.funcBody]; exact c.failNear _
      statements := by rw [Parser.statements]; exact c.failNear _
      block := by rw [Parser.block]; exact c.failNear _
      returnStmt := by rw [Parser.returnStmt]; exact c.failNear _
      statement := by rw [Parser.statement]; exact c.failNear _
      ifStmt := fun _ => by rw [Parser.ifStmt]; exact c.failNear _
      forStmt := fun _ => by rw [Parser.forStmt]; exact c.failNear _
      forBody := fun _ _ => by rw [Parser.forBody]; exact c.failNear _
      functionStmt := fun _ => by rw [Parser.functionStmt]; exact c.failNear _
      functionName := fun _ => by rw [Parser.functionName]; exact c.failNear _
      localFunction := by rw [Parser.localFunction]; exact c.failNear _
      localStmt := by rw [Parser.localStmt]; exact c.failNear _
      labelStmt := fun _ _ => by rw [Parser.labelStmt]; exact c.failNear _
      emptyStatements := by rw [Parser.emptyStatements]; exact c.failNear _
      exprStmt := by rw [Parser.exprStmt]; exact c.failNear _
      assignment := fun _ _ => by rw [Parser.assignment]; exact c.failNear _ }
  | n + 1 => by
    have k := readers n
    exact {
      subExpr := c.subExpr k
      operators := c.operators k
      simpleExpr := c.simpleExpr k
      primary := c.primary k
      suffixed := c.suffixed k
      suffixes := c.suffixes k
      bracketKey := c.bracketKey k
      callArgs := c.callArgs k
      exprList := c.exprList k
      constructor := c.constructor k
      fieldList := c.fieldList k
      field := c.field k
      funcBody := c.funcBody k
      statements := c.statements k
      block := c.block k
      returnStmt := c.returnStmt k
      statement := c.statement k
      ifStmt := c.ifStmt k
      forStmt := c.forStmt k
      forBody := c.forBody k
      functionStmt := c.functionStmt k
      functionName := c.functionName k
      localFunction := c.localFunction k
      localStmt := c.localStmt k
      labelStmt := c.labelStmt k
      emptyStatements := c.emptyStatements k
      exprStmt := c.exprStmt k
      assignment := c.assignment k }

end Closed

/-! ## The depth of nesting -/

/-- The state with another depth of nesting. -/
def State.atLevel (s : State) (d : Nat) : State :=
  { s with level := d }

theorem State.atLevel_self (s : State) : s.atLevel s.level = s := rfl

theorem State.atLevel_atLevel (s : State) (d d' : Nat) : (s.atLevel d).atLevel d' = s.atLevel d' := rfl

/-- The reader comes back to the depth at which it began and does the same less deep. -/
def Sinks (p : Parse α) : Prop :=
  ∀ s r s', p.run s = .ok (r, s') → s'.level = s.level ∧ s'.source = s.source ∧
    ∀ d ≤ s.level, p.run (s.atLevel d) = .ok (r, s'.atLevel d)

theorem Sinks.bind {p : Parse α} {q : α → Parse β} (hp : Sinks p) (hq : ∀ r, Sinks (q r)) : Sinks (p >>= q) := by
  intro s r s' hrun
  obtain ⟨r₁, s₁, hrun₁, hrun₂⟩ := run_bind_eq_ok hrun
  obtain ⟨hlevel₁, hsource₁, hlow₁⟩ := hp s r₁ s₁ hrun₁
  obtain ⟨hlevel₂, hsource₂, hlow₂⟩ := hq r₁ s₁ r s' hrun₂
  refine ⟨hlevel₂.trans hlevel₁, hsource₂.trans hsource₁, fun d hd => ?_⟩
  rw [run_bind, hlow₁ d hd]
  exact hlow₂ d (hlevel₁ ▸ hd)

theorem Sinks.get_bind {q : State → Parse α} (hq : ∀ s d, q { s with level := d } = q s) (h : ∀ s, Sinks (q s)) :
    Sinks (get >>= q) := by
  intro s r s' hrun
  obtain ⟨hlevel, hsource, hlow⟩ := h s s r s' hrun
  refine ⟨hlevel, hsource, fun d hd => ?_⟩
  change (q (s.atLevel d)).run (s.atLevel d) = _
  rw [State.atLevel, hq]
  exact hlow d hd

theorem sinks_advance : Sinks advance := by
  intro s r s' hrun
  by_cases hs : headToken s.tokens = .eof
  · rw [run_advance_eof hs] at hrun
    cases hrun
    exact ⟨rfl, rfl, fun d _ => run_advance_eof hs⟩
  · obtain ⟨l, ts, htokens, hl, hreach, rfl⟩ := advance_eq_ok hs hrun
    exact ⟨rfl, rfl, fun d _ => run_advance htokens hl hreach⟩

theorem Sinks.nested {p : Parse α} (h : Sinks p) : Sinks (nested p) := by
  intro s r s' hrun
  have hdepth : ¬ maxLevels ≤ s.level + 1 := fun hdepth => by
    rw [run_nested, if_pos hdepth] at hrun
    cases hrun
  obtain ⟨s₁, hp, rfl⟩ := nested_eq_ok hrun
  obtain ⟨hlevel, hsource, hlow⟩ := h (s.atLevel (s.level + 1)) r s₁ hp
  have hlevel : s₁.level = s.level + 1 := hlevel
  refine ⟨congrArg (· - 1) hlevel, hsource, fun d hd => ?_⟩
  have hthere := hlow (d + 1) (Nat.succ_le_succ hd)
  rw [State.atLevel_atLevel] at hthere
  have hdepth' : ¬ maxLevels ≤ (s.atLevel d).level + 1 := fun h => hdepth (Nat.le_trans h (Nat.succ_le_succ hd))
  rw [run_nested, if_neg hdepth']
  change (p.run (s.atLevel (d + 1))).map _ = _
  rw [hthere]
  rfl

theorem closed_sinks : Closed Sinks where
  pure r s r' s' hrun := by
    cases hrun
    exact ⟨rfl, rfl, fun _ _ => rfl⟩
  bind := Sinks.bind
  fails h s r s' hrun := by
    obtain ⟨e, he⟩ := h s
    rw [he] at hrun
    cases hrun
  get := Sinks.get_bind
  change g s r s' hrun := by
    cases hrun
    exact ⟨rfl, rfl, fun _ _ => rfl⟩
  advance := sinks_advance
  nested := Sinks.nested

/-- All readers do the same less deep. -/
theorem sinks (n : Nat) : Readers Sinks n :=
  closed_sinks.readers n

end Scratchpad.Lua.Parser
