import Scratchpad.Proofs.Lua.Parser.Reads

/-!
# What readers do to the scopes

The reader of an expression leaves the functions around it as they were, with their variables, labels and jumps; that
of a statement changes at most the variables of the innermost function and the labels and jumps of its blocks, and
leaves the blocks themselves (`outline`). Main statement: this holds of all readers of the grammar (`scoping`).
-/

namespace Scratchpad.Lua.Parser

variable {α β γ : Type}

/-! ## Actions that only look -/

/-- The action leaves the state as it is. -/
def Looks (a : Parse α) : Prop :=
  ∀ s r s', a.run s = .ok (r, s') → s' = s

theorem Looks.pure (r : α) : Looks (Pure.pure r : Parse α) := by
  intro s r' s' hrun
  cases hrun
  rfl

theorem Looks.bind {a : Parse α} {q : α → Parse β} (ha : Looks a) (hq : ∀ r, Looks (q r)) : Looks (a >>= q) := by
  intro s r s' hrun
  obtain ⟨r₁, s₁, hrun₁, hrun₂⟩ := run_bind_eq_ok hrun
  rw [hq r₁ s₁ r s' hrun₂]
  exact ha s r₁ s₁ hrun₁

theorem Looks.get_bind {q : State → Parse β} (h : ∀ s, Looks (q s)) : Looks (get >>= q) :=
  fun s r s' hrun => h s s r s' hrun

theorem Looks.of_fails {a : Parse α} (h : ∀ s, ∃ e, a.run s = .error e) : Looks a := by
  intro s r s' hrun
  obtain ⟨e, he⟩ := h s
  rw [he] at hrun
  cases hrun

theorem Looks.ite {c : Prop} [Decidable c] {a a' : Parse α} (h : Looks a) (h' : Looks a') :
    Looks (if c then a else a') := by
  split
  · exact h
  · exact h'

theorem looks_failNear (message : Bytes) : Looks (failNear message : Parse α) :=
  .of_fails fun _ => ⟨_, rfl⟩

theorem looks_failHere (message : Bytes) : Looks (failHere message : Parse α) :=
  .of_fails fun _ => ⟨_, rfl⟩

theorem looks_currentToken : Looks currentToken :=
  (Looks.get_bind fun _ => .pure _).bind fun _ => .pure _

theorem looks_currentLine : Looks currentLine :=
  (Looks.get_bind fun _ => .pure _).bind fun _ => .pure _

theorem looks_lastLine : Looks lastLine :=
  .get_bind fun _ => .pure _

theorem looks_lookahead : Looks lookahead := by
  intro s r s' hrun
  exact (lookahead_eq_ok hrun).2.2

theorem looks_func : Looks func :=
  .get_bind fun _ => .pure _

theorem looks_activeCount : Looks activeCount :=
  looks_func.bind fun _ => .pure _

theorem looks_scopeDepth : Looks scopeDepth :=
  .get_bind fun _ => .pure _

theorem looks_checkLocals (count : Nat) : Looks (checkLocals count) :=
  looks_func.bind fun _ => .ite (looks_failNear _) (.pure _)

theorem looks_declared? (name : Bytes) : Looks (declared? name) := by
  refine .get_bind fun s => ?_
  split
  · split <;> exact .pure _
  · exact .pure _

theorem looks_envExpr : Looks envExpr := by
  refine (looks_declared? _).bind fun r => ?_
  split
  · exact .pure _
  · exact looks_scopeDepth.bind fun _ => .pure _

theorem looks_nameExpr (name : Bytes) : Looks (nameExpr name) := by
  unfold nameExpr
  refine .ite looks_envExpr ((looks_declared? _).bind fun r => ?_)
  split
  · exact .pure _
  · exact looks_envExpr.bind fun _ => .pure _

theorem looks_findLabel (name : Bytes) : Looks (findLabel name) :=
  looks_func.bind fun _ => .pure _

theorem looks_checkAssignable (name? : Option Bytes) (e : Expr) : Looks (checkAssignable name? e) := by
  unfold checkAssignable
  dsimp only
  split
  · exact .pure _
  · refine (looks_declared? _).bind fun r => ?_
    split
    · exact looks_failHere _
    · exact looks_failHere _
    · exact looks_failHere _
    · exact .pure _

/-! ## Actions that keep something of the functions around them -/

/-- The action keeps what `view` shows of the functions. -/
def Keeps (view : List FuncScope → γ) (p : Parse α) : Prop :=
  ∀ s r s', p.run s = .ok (r, s') → view s'.funcs = view s.funcs

section Rules

variable {view : List FuncScope → γ} {p : Parse α}

theorem Looks.keeps (h : Looks p) : Keeps view p := by
  intro s r s' hrun
  rw [h s r s' hrun]

theorem Keeps.bind {q : α → Parse β} (hp : Keeps view p) (hq : ∀ r, Keeps view (q r)) : Keeps view (p >>= q) := by
  intro s r s' hrun
  obtain ⟨r₁, s₁, hrun₁, hrun₂⟩ := run_bind_eq_ok hrun
  exact (hq r₁ s₁ r s' hrun₂).trans (hp s r₁ s₁ hrun₁)

/-- What keeps the functions keeps all that is shown of them. -/
theorem Keeps.any (h : Keeps id p) : Keeps view p :=
  fun s r s' hrun => congrArg view (h s r s' hrun)

theorem Keeps.pure (r : α) : Keeps view (Pure.pure r : Parse α) :=
  (Looks.pure r).keeps

theorem Keeps.look {a : Parse α} {q : α → Parse β} (ha : Looks a) (hq : ∀ r, Keeps view (q r)) :
    Keeps view (a >>= q) :=
  ha.keeps.bind hq

theorem Keeps.thenPure {r : α → β} (h : Keeps view p) : Keeps view (p >>= fun a => Pure.pure (r a)) :=
  h.bind fun _ => .pure _

theorem Keeps.ite {c : Prop} [Decidable c] {p' : Parse α} (h : Keeps view p) (h' : Keeps view p') :
    Keeps view (if c then p else p') := by
  split
  · exact h
  · exact h'

theorem keeps_failNear (message : Bytes) : Keeps view (failNear message : Parse α) :=
  (looks_failNear message).keeps

theorem Keeps.nested (h : Keeps view p) : Keeps view (nested p) := by
  intro s r s' hrun
  obtain ⟨s₁, hp, rfl⟩ := nested_eq_ok hrun
  exact h { s with level := s.level + 1 } r s₁ hp

theorem keeps_advance : Keeps view advance := by
  intro s r s' hrun
  by_cases hs : headToken s.tokens = .eof
  · rw [run_advance_eof hs] at hrun
    cases hrun
    rfl
  · obtain ⟨l, ts, -, -, -, rfl⟩ := advance_eq_ok hs hrun
    rfl

theorem keeps_testNext (t : Token) : Keeps view (testNext t) :=
  .look looks_currentToken fun _ => .ite keeps_advance.thenPure (.pure _)

theorem keeps_expect (t : Token) : Keeps view (expect t) :=
  .bind (.look looks_currentToken fun _ => .ite (keeps_failNear _) (.pure _)) fun _ => keeps_advance

theorem keeps_expectMatch (closer opener : Token) (line : Nat) : Keeps view (expectMatch closer opener line) := by
  rw [expectMatch_eq]
  exact .look looks_currentToken fun _ => .ite keeps_advance (Looks.of_fails (failUnclosed_fails closer opener line)).keeps

theorem keeps_expectName : Keeps view expectName := by
  unfold expectName
  refine .look looks_currentToken fun t => ?_
  split
  · exact keeps_advance.thenPure
  · exact keeps_failNear _

end Rules

/-! ## Blocks -/

/-- The functions around the innermost one, and how many variables each block began with. -/
def outline (fs : List FuncScope) : List FuncScope × List (List Nat) :=
  (fs.tail, fs.map fun f => f.blocks.map BlockScope.active)

section Blocks

variable {p : Parse α}

theorem keeps_modify {view : List FuncScope → γ} {g : State → State} (hg : ∀ s, view (g s).funcs = view s.funcs) :
    Keeps view (modify g : Parse PUnit) := by
  intro s r s' hrun
  cases hrun
  exact hg s

/-- A change of the innermost function that leaves its blocks. -/
theorem keeps_modifyFunc {g : FuncScope → FuncScope}
    (hg : ∀ f, (g f).blocks.map BlockScope.active = f.blocks.map BlockScope.active) :
    Keeps outline (modifyFunc g) := by
  refine keeps_modify fun s => ?_
  rcases s with ⟨_, _, _, _ | ⟨f, rest⟩, _, _⟩
  · rfl
  · simp only [outline, List.map_cons, hg, List.tail_cons]

theorem keeps_modifyBlock {g : BlockScope → BlockScope} (hg : ∀ b, (g b).active = b.active) :
    Keeps outline (modifyBlock g) := by
  refine keeps_modifyFunc fun f => ?_
  rcases hf : f.blocks with _ | ⟨b, rest⟩
  · simp only [hf]
  · simp only [List.map_cons, hg]

theorem keeps_tail {g : FuncScope → FuncScope} : Keeps List.tail (modifyFunc g) :=
  keeps_modify fun s => by rcases s with ⟨_, _, _, _ | ⟨f, rest⟩, _, _⟩ <;> rfl

theorem Keeps.tail (h : Keeps outline p) : Keeps List.tail p :=
  fun s r s' hrun => congrArg Prod.fst (h s r s' hrun)

theorem keeps_declare (names : List Local) : Keeps outline (declare names) :=
  keeps_modifyFunc fun _ => rfl

theorem keeps_addPending (name : Bytes) (line : Nat) : Keeps outline (addPending name line) :=
  .look looks_activeCount fun _ => keeps_modifyBlock fun _ => rfl

theorem looks_forIn {σ : Type} {g : α → σ → Parse (ForInStep σ)} (h : ∀ x r, Looks (g x r)) (xs : List α) (r : σ) :
    Looks (forIn xs r g) := by
  induction xs generalizing r with
  | nil => exact .pure _
  | cons x xs ih =>
    rw [List.forIn_cons]
    refine (h x r).bind fun step => ?_
    cases step with
    | done r => exact .pure _
    | yield r => exact ih r

theorem looks_jumpsIntoScope {g : Pending} : Looks (jumpsIntoScope g : Parse α) :=
  looks_func.bind fun _ => looks_failHere _

theorem keeps_solve (l : Label) : Keeps outline (solve l) := by
  refine .look (by rw [map_eq_pure_bind]; exact looks_func.bind fun _ => .pure _) fun b => ?_
  refine .look (looks_forIn (fun g _ => .ite ?_ (.pure _)) _ _) fun _ => keeps_modifyBlock fun _ => rfl
  exact looks_jumpsIntoScope.bind fun _ => .pure _

theorem failUndefined_fails (g : Pending) (s : State) : ∃ e, (failUndefined g : Parse α).run s = .error e := by
  unfold failUndefined
  split <;> exact ⟨_, rfl⟩

theorem keeps_tail_leaveBlock : Keeps List.tail leaveBlock := by
  refine .look looks_func fun fs => ?_
  rcases fs.blocks with _ | ⟨b, _ | ⟨outer, more⟩⟩
  · exact .pure _
  · refine keeps_tail.bind fun _ => ?_
    split
    · exact .pure _
    · exact Looks.keeps (.of_fails (failUndefined_fails _))
  · exact keeps_tail

/-- Leaving a block takes it away. -/
theorem outline_leaveBlock {s s' : State} {r : Unit} {f : FuncScope} {rest : List FuncScope} (hs : s.funcs = f :: rest)
    (h : leaveBlock.run s = .ok (r, s')) :
    outline s'.funcs =
      (rest, (f.blocks.map BlockScope.active).tail :: rest.map fun f => f.blocks.map BlockScope.active) := by
  rcases s with ⟨tokens, failure, last, funcs, level, source⟩
  obtain rfl : funcs = f :: rest := hs
  rcases f with ⟨line, isMain, vararg, locals, _ | ⟨b, _ | ⟨outer, more⟩⟩⟩
  · cases h
    rfl
  · obtain ⟨fs, s₁, hfunc, h⟩ := run_bind_eq_ok h
    cases hfunc
    obtain ⟨_, s₂, hmodify, h⟩ := run_bind_eq_ok h
    cases hmodify
    split at h
    · cases h
      rfl
    · obtain ⟨e, he⟩ := failUndefined_fails _ _
      rw [he] at h
      cases h
  · cases h
    rfl

theorem Keeps.inBlock {isLoop : Bool} (h : Keeps outline p) : Keeps outline (inBlock isLoop p) := by
  intro s r s' hrun
  obtain ⟨_, s₁, henter, hrun⟩ := run_bind_eq_ok hrun
  obtain ⟨r, s₂, hp, hrun⟩ := run_bind_eq_ok hrun
  obtain ⟨_, s₃, hleave, hpure⟩ := run_bind_eq_ok hrun
  cases hpure
  have hinner := h s₁ r s₂ hp
  rcases s with ⟨tokens, failure, last, _ | ⟨f, rest⟩, level, source⟩
  · cases henter
    have hnone : s₂.funcs = [] := List.map_eq_nil_iff.1 (congrArg Prod.snd hinner)
    rcases s₂ with ⟨_, _, _, funcs, _, _⟩
    obtain rfl : funcs = [] := hnone
    cases hleave
    rfl
  · cases henter
    rcases hs₂ : s₂.funcs with _ | ⟨f₂, rest₂⟩
    · rw [hs₂] at hinner
      cases hinner
    · rw [hs₂] at hinner
      obtain ⟨hrest, hactive⟩ := Prod.mk.inj hinner
      obtain rfl : rest₂ = rest := hrest
      have hblocks : f₂.blocks.map BlockScope.active = f.locals.length :: f.blocks.map BlockScope.active :=
        (List.cons.inj hactive).1
      rw [outline_leaveBlock hs₂ hleave, hblocks]
      rfl

end Blocks

/-! ## The readers of the grammar -/

/-- What the readers with the fuel `n` do to the scopes. -/
structure Scoping (n : Nat) : Prop where
  subExpr : ∀ limit, Keeps id (subExpr n limit)
  operators : ∀ limit e, Keeps id (operators n limit e)
  simpleExpr : Keeps id (simpleExpr n)
  primary : Keeps id (primary n)
  suffixed : Keeps id (suffixed n)
  suffixes : ∀ e, Keeps id (suffixes n e)
  bracketKey : Keeps id (bracketKey n)
  callArgs : Keeps id (callArgs n)
  exprList : Keeps id (exprList n)
  constructor : Keeps id (constructor n)
  fieldList : Keeps id (fieldList n)
  field : Keeps id (field n)
  funcBody : ∀ isMethod line, Keeps id (funcBody n isMethod line)
  statements : Keeps outline (statements n)
  block : Keeps outline (block n)
  returnStmt : Keeps id (returnStmt n)
  statement : Keeps outline (statement n)
  ifStmt : ∀ line, Keeps outline (ifStmt n line)
  forStmt : ∀ line, Keeps outline (forStmt n line)
  forBody : ∀ names line, Keeps outline (forBody n names line)
  functionStmt : ∀ line, Keeps id (functionStmt n line)
  functionName : ∀ target, Keeps id (functionName n target)
  localFunction : Keeps outline (localFunction n)
  localStmt : Keeps outline (localStmt n)
  labelStmt : ∀ name line, Keeps outline (labelStmt n name line)
  emptyStatements : Keeps outline (emptyStatements n)
  exprStmt : Keeps id (exprStmt n)
  assignment : ∀ target name?, Keeps id (assignment n target name?)

section Expressions

variable {n : Nat}

theorem keeps_subExpr (k : Scoping n) (limit : Nat) : Keeps id (subExpr (n + 1) limit) := by
  rw [subExpr]
  refine .nested (.look looks_currentToken fun t => ?_)
  dsimp only
  split
  · refine .look looks_currentLine fun line => keeps_advance.bind fun _ => (k.subExpr _).bind fun e => ?_
    exact .look looks_lastLine fun _ => .look (.pure _) fun first => k.operators limit first
  · exact k.simpleExpr.bind fun first => k.operators limit first

theorem keeps_operators (k : Scoping n) (limit : Nat) (e : Expr) : Keeps id (operators (n + 1) limit e) := by
  rw [operators]
  refine .look looks_currentToken fun t => ?_
  split
  · refine .ite (.look looks_currentLine fun line => keeps_advance.bind fun _ => ?_) (.pure _)
    refine .look looks_lastLine fun _ => (k.subExpr _).bind fun r => .look looks_lastLine fun _ => ?_
    exact k.operators limit _
  · exact .pure _

theorem keeps_simpleExpr (k : Scoping n) : Keeps id (simpleExpr (n + 1)) := by
  rw [simpleExpr]
  refine .look looks_currentToken fun t => ?_
  split
  · exact keeps_advance.thenPure
  · exact keeps_advance.thenPure
  · exact keeps_advance.thenPure
  · exact keeps_advance.thenPure
  · exact keeps_advance.thenPure
  · exact .look looks_func fun _ => .ite keeps_advance.thenPure (keeps_failNear _)
  · exact k.constructor
  · exact .look looks_currentLine fun line => keeps_advance.bind fun _ => (k.funcBody _ _).thenPure
  · exact k.suffixed

theorem keeps_primary (k : Scoping n) : Keeps id (primary (n + 1)) := by
  rw [primary]
  refine .look looks_currentToken fun t => ?_
  split
  · exact keeps_advance.bind fun _ => .look (looks_nameExpr _) fun _ => .pure _
  · refine .look looks_currentLine fun line => keeps_advance.bind fun _ => (k.subExpr 0).bind fun e => ?_
    exact (keeps_expectMatch _ _ _).bind fun _ => .look looks_lastLine fun _ => .pure _
  · exact keeps_failNear _

theorem keeps_suffixed (k : Scoping n) : Keeps id (suffixed (n + 1)) := by
  rw [suffixed]
  exact k.primary.bind fun r => k.suffixes r.1

theorem keeps_suffixes (k : Scoping n) (e : Expr) : Keeps id (suffixes (n + 1) e) := by
  rw [suffixes]
  refine .look looks_currentToken fun t => ?_
  split
  · refine .look looks_lastLine fun _ => keeps_advance.bind fun _ => keeps_expectName.bind fun name => ?_
    exact k.suffixes _
  · exact .look looks_lastLine fun _ => k.bracketKey.bind fun key => k.suffixes _
  · refine keeps_advance.bind fun _ => .look looks_lastLine fun _ => keeps_expectName.bind fun name => ?_
    exact .look looks_lastLine fun _ => k.callArgs.bind fun r => k.suffixes _
  · exact .look looks_lastLine fun _ => k.callArgs.bind fun r => k.suffixes _
  · exact .look looks_lastLine fun _ => k.callArgs.bind fun r => k.suffixes _
  · exact .look looks_lastLine fun _ => k.callArgs.bind fun r => k.suffixes _
  · exact .pure _

theorem keeps_bracketKey (k : Scoping n) : Keeps id (bracketKey (n + 1)) := by
  rw [bracketKey]
  refine keeps_advance.bind fun _ => (k.subExpr 0).bind fun key => .look looks_lastLine fun _ => ?_
  exact (keeps_expect _).thenPure

theorem keeps_callArgs (k : Scoping n) : Keeps id (callArgs (n + 1)) := by
  rw [callArgs]
  refine .look looks_currentLine fun line => .look looks_currentToken fun t => ?_
  split
  · refine keeps_advance.bind fun _ => (keeps_testNext _).bind fun r => .ite (.pure _) ?_
    refine k.exprList.bind fun args => (keeps_expectMatch _ _ _).bind fun _ => ?_
    exact .look looks_lastLine fun _ => .pure _
  · exact k.constructor.thenPure
  · exact keeps_advance.thenPure
  · exact keeps_failNear _

theorem keeps_exprList (k : Scoping n) : Keeps id (exprList (n + 1)) := by
  rw [exprList]
  refine (k.subExpr 0).bind fun e => (keeps_testNext _).bind fun r => .ite ?_ (.pure _)
  exact .look looks_lastLine fun _ => k.exprList.thenPure

theorem keeps_constructor (k : Scoping n) : Keeps id (constructor (n + 1)) := by
  rw [constructor]
  refine .look looks_currentLine fun line => (keeps_expect _).bind fun _ => k.fieldList.bind fun fields => ?_
  exact (keeps_expectMatch _ _ _).bind fun _ => .look looks_lastLine fun _ => .pure _

theorem keeps_fieldList (k : Scoping n) : Keeps id (fieldList (n + 1)) := by
  have hseparator : Keeps id fieldSeparator :=
    (keeps_testNext _).bind fun r => .ite (.pure _) (keeps_testNext _)
  rw [fieldList]
  refine .look looks_currentToken fun t => .ite (.pure _) (k.field.bind fun f => hseparator.bind fun r => ?_)
  exact .ite (.look looks_lastLine fun line => k.fieldList.thenPure) (.pure _)

theorem keeps_field (k : Scoping n) : Keeps id (field (n + 1)) := by
  have hvalue : ∀ key : Expr, Keeps id do
      expectSym .assign
      let v ← subExpr n 0
      let line ← lastLine
      return Field.keyed key (v.settle line) line := fun key =>
    (keeps_expect _).bind fun _ => (k.subExpr 0).bind fun v => .look looks_lastLine fun _ => .pure _
  rw [field]
  refine .look looks_currentToken fun t => ?_
  split
  · exact .look looks_lookahead fun u => .ite (keeps_advance.bind fun _ => hvalue _) (k.subExpr 0).thenPure
  · exact k.bracketKey.bind fun key => hvalue key
  · exact (k.subExpr 0).thenPure

end Expressions

/-- The reader takes the innermost function away. -/
def Drops (p : Parse α) : Prop :=
  ∀ s r s', p.run s = .ok (r, s') → s'.funcs = s.funcs.tail

section Functions

variable {n : Nat} {view : List FuncScope → γ}

theorem Drops.after {p : Parse α} {q : α → Parse β} (hp : Keeps List.tail p) (hq : ∀ r, Drops (q r)) :
    Drops (p >>= q) := by
  intro s r s' hrun
  obtain ⟨r₁, s₁, hrun₁, hrun₂⟩ := run_bind_eq_ok hrun
  rw [hq r₁ s₁ r s' hrun₂]
  exact hp s r₁ s₁ hrun₁

theorem Drops.iteAfter {c : Prop} [Decidable c] {p p' : Parse α} {q : α → Parse β} (hp : Keeps List.tail p)
    (hp' : Keeps List.tail p') (hq : ∀ r, Drops (q r)) : Drops (if c then p >>= q else p' >>= q) := by
  split
  · exact .after hp hq
  · exact .after hp' hq

theorem keeps_moreNames : ∀ n, Keeps view (moreNames n)
  | 0 => keeps_failNear _
  | n + 1 => by
    rw [moreNames]
    refine (keeps_testNext _).bind fun r => .ite ?_ (.pure _)
    exact keeps_expectName.bind fun name => (keeps_moreNames n).thenPure

theorem keeps_paramList : ∀ n, Keeps view (paramList n)
  | 0 => keeps_failNear _
  | n + 1 => by
    rw [paramList]
    refine .look looks_currentToken fun t => ?_
    split
    · exact keeps_advance.bind fun _ => (keeps_testNext _).bind fun r => .ite (keeps_paramList n).thenPure (.pure _)
    · exact keeps_advance.thenPure
    · exact keeps_failNear _

theorem keeps_angleBinding : Keeps view angleBinding := by
  refine (keeps_testNext _).bind fun r => .ite ?_ (.pure _)
  refine keeps_expectName.bind fun name => (keeps_expect _).bind fun _ => .ite (.pure _) (.ite (.pure _) ?_)
  exact (looks_failHere _).keeps

theorem keeps_attributedNames : ∀ n closing, Keeps view (attributedNames n closing)
  | 0, _ => keeps_failNear _
  | n + 1, closing => by
    rw [attributedNames]
    refine keeps_expectName.bind fun name => keeps_angleBinding.bind fun b => ?_
    refine .ite ((looks_failHere _).keeps.bind fun _ => ?_) ?_
    all_goals
      refine (keeps_testNext _).bind fun r => .ite ?_ (Keeps.pure _).thenPure
      exact (keeps_attributedNames n _).thenPure

theorem keeps_funcBody (k : Scoping n) (isMethod : Bool) (line : Nat) : Keeps id (funcBody (n + 1) isMethod line) := by
  rw [funcBody]
  intro s r s' hrun
  obtain ⟨_, s₁, hpush, hrun⟩ := run_bind_eq_ok hrun
  cases hpush
  refine Drops.after keeps_tail (fun _ => .after (keeps_expect _) fun _ => .after looks_currentToken.keeps fun t => ?_)
    _ r s' hrun
  dsimp only
  refine .iteAfter (.pure _) (keeps_paramList n) fun r => .after (looks_checkLocals _).keeps fun _ => ?_
  refine .after keeps_tail fun _ => .after keeps_tail fun _ => .after (keeps_expect _) fun _ => ?_
  refine .after k.statements.tail fun body => .after (keeps_expectMatch _ _ _) fun _ => ?_
  refine .after keeps_tail_leaveBlock fun _ => ?_
  intro s r s' hrun
  cases hrun
  exact List.drop_one

theorem keeps_functionStmt (k : Scoping n) (line : Nat) : Keeps id (functionStmt (n + 1) line) := by
  rw [functionStmt]
  refine keeps_expectName.bind fun name => .look (looks_nameExpr name) fun e => (k.functionName e).bind fun r => ?_
  exact (k.funcBody r.2 line).bind fun f => .look (looks_checkAssignable _ _) fun _ => .pure _

theorem keeps_functionName (k : Scoping n) (e : Expr) : Keeps id (functionName (n + 1) e) := by
  rw [functionName]
  refine .look looks_currentToken fun t => ?_
  split
  · refine .look looks_lastLine fun _ => keeps_advance.bind fun _ => keeps_expectName.bind fun name => ?_
    exact k.functionName _
  · exact .look looks_lastLine fun _ => keeps_advance.bind fun _ => keeps_expectName.thenPure
  · exact .pure _

end Functions

section Statements

variable {n : Nat}

theorem keeps_statements (k : Scoping n) : Keeps outline (statements (n + 1)) := by
  rw [statements]
  refine .look looks_currentToken fun t => .ite (.pure _) (.ite k.returnStmt.any.nested.thenPure ?_)
  exact k.statement.nested.bind fun ss => k.statements.thenPure

theorem keeps_block (k : Scoping n) : Keeps outline (block (n + 1)) := by
  rw [block]
  exact k.statements.inBlock

theorem keeps_returnStmt (k : Scoping n) : Keeps id (returnStmt (n + 1)) := by
  rw [returnStmt]
  refine keeps_advance.bind fun _ => .look looks_currentToken fun t => ?_
  refine .ite ((Keeps.pure _).bind ?none) (k.exprList.bind ?some)
  case none | some =>
    exact fun values => .look looks_lastLine fun _ => (keeps_testNext _).bind fun _ => .look looks_func fun _ => .pure _

theorem keeps_statement (k : Scoping n) : Keeps outline (statement (n + 1)) := by
  rw [statement]
  refine .look looks_currentLine fun line => .look looks_currentToken fun t => ?_
  split
  · exact keeps_advance.thenPure
  · exact keeps_advance.bind fun _ => (k.ifStmt line).thenPure
  · refine keeps_advance.bind fun _ => (k.subExpr 0).any.bind fun cond => .look looks_lastLine fun _ => ?_
    refine .inBlock ((keeps_expect _).bind fun _ => k.block.bind fun body => ?_)
    exact (keeps_expectMatch _ _ _).thenPure
  · exact keeps_advance.bind fun _ => k.block.bind fun body => (keeps_expectMatch _ _ _).thenPure
  · exact k.forStmt line
  · refine keeps_advance.bind fun _ => .inBlock (.inBlock (k.statements.bind fun body => ?_))
    refine (keeps_expectMatch _ _ _).bind fun _ => (k.subExpr 0).any.bind fun cond => ?_
    exact .look looks_lastLine fun _ => .pure _
  · exact keeps_advance.bind fun _ => (k.functionStmt line).any.thenPure
  · exact keeps_advance.bind fun _ => (keeps_testNext _).bind fun r => .ite k.localFunction k.localStmt
  · exact keeps_advance.bind fun _ => keeps_expectName.bind fun name => k.labelStmt name line
  · exact keeps_advance.bind fun _ => (keeps_addPending _ _).thenPure
  · refine keeps_advance.bind fun _ => keeps_expectName.bind fun name => .look (looks_findLabel name) fun found => ?_
    split
    · exact .look (.pure _) fun _ => .pure _
    · exact (keeps_addPending _ _).thenPure
  · exact k.exprStmt.any

theorem keeps_ifStmt (k : Scoping n) (line : Nat) : Keeps outline (ifStmt (n + 1) line) := by
  rw [ifStmt]
  refine (k.subExpr 0).any.bind fun cond => (keeps_expect _).bind fun _ => .look looks_lastLine fun _ => ?_
  refine k.block.bind fun body => .look looks_currentToken fun t => ?_
  split
  · exact keeps_advance.bind fun _ => (k.ifStmt line).thenPure
  · exact keeps_advance.bind fun _ => k.block.bind fun _ => (keeps_expectMatch _ _ _).thenPure
  · exact (keeps_expectMatch _ _ _).thenPure

theorem keeps_forBody (k : Scoping n) (names : List Bytes) (line : Nat) :
    Keeps outline (forBody (n + 1) names line) := by
  rw [forBody]
  refine (keeps_expect _).bind fun _ => .look looks_lastLine fun doLine => Keeps.bind ?_ fun body => ?_
  · exact .inBlock (.look (looks_checkLocals _) fun _ => (keeps_declare _).bind fun _ => k.statements)
  · exact (keeps_expectMatch _ _ _).thenPure

theorem keeps_forStmt (k : Scoping n) (line : Nat) : Keeps outline (forStmt (n + 1) line) := by
  have hbound : Keeps outline do
      let e ← subExpr n 0
      return e.settle (← lastLine) :=
    (k.subExpr 0).any.bind fun e => .look looks_lastLine fun _ => .pure _
  rw [forStmt]
  refine .inBlock (keeps_advance.bind fun _ => keeps_expectName.bind fun name => .look looks_currentToken fun t => ?_)
  split
  case h_1 =>
    refine keeps_advance.bind fun _ => hbound.bind fun start => (keeps_expect _).bind fun _ => hbound.bind fun stop => ?_
    refine (keeps_testNext _).bind fun r => .ite (hbound.bind fun step => ?_) ((Keeps.pure _).bind fun step => ?_)
    · exact (k.forBody _ _).thenPure
    · exact (k.forBody _ _).thenPure
  case h_2 | h_3 =>
    refine (keeps_moreNames n).bind fun more => (keeps_expect _).bind fun _ => .look looks_currentLine fun _ => ?_
    refine k.exprList.any.bind fun values => .look looks_lastLine fun _ => ?_
    exact (keeps_modifyBlock (by intro b; rfl)).bind fun _ => (k.forBody _ _).thenPure
  case h_4 => exact keeps_failNear _

theorem keeps_localFunction (k : Scoping n) : Keeps outline (localFunction (n + 1)) := by
  rw [localFunction]
  refine keeps_expectName.bind fun name => .look (looks_checkLocals _) fun _ => (keeps_declare _).bind fun _ => ?_
  exact .look looks_currentLine fun line => (k.funcBody false line).any.thenPure

theorem keeps_declareLocals (names : List Local) (values : List Expr) : Keeps outline (declareLocals names values) := by
  rw [declareLocals]
  refine .look looks_lastLine fun line => .look (looks_checkLocals _) fun _ => (keeps_declare _).bind fun _ => ?_
  exact .ite (keeps_modifyBlock (by intro b; rfl)).thenPure (.look (.pure _) fun _ => .pure _)

theorem keeps_localStmt (k : Scoping n) : Keeps outline (localStmt (n + 1)) := by
  rw [localStmt_succ]
  refine (keeps_attributedNames n false).bind fun names => (keeps_testNext _).bind fun r => ?_
  exact .ite (k.exprList.any.bind fun values => keeps_declareLocals names values)
    ((Keeps.pure _).bind fun values => keeps_declareLocals names values)

theorem keeps_labelStmt (k : Scoping n) (name : Bytes) (line : Nat) : Keeps outline (labelStmt (n + 1) name line) := by
  rw [labelStmt]
  refine (keeps_expect _).bind fun _ => k.emptyStatements.bind fun skipped => .look (looks_findLabel name) fun found => ?_
  split
  · exact (looks_failHere _).keeps
  · refine .look looks_func fun fs => .look looks_currentToken fun t => .look looks_scopeDepth fun _ => ?_
    exact (keeps_modifyBlock (by intro b; rfl)).bind fun _ => (keeps_solve _).thenPure

theorem keeps_emptyStatements (k : Scoping n) : Keeps outline (emptyStatements (n + 1)) := by
  rw [emptyStatements]
  refine .look looks_currentToken fun t => ?_
  split
  · exact k.statement.nested.bind fun ss => k.emptyStatements.thenPure
  · exact k.statement.nested.bind fun ss => k.emptyStatements.thenPure
  · exact .pure _

theorem keeps_exprStmt (k : Scoping n) : Keeps id (exprStmt (n + 1)) := by
  rw [exprStmt]
  refine k.primary.bind fun r => (k.suffixes r.1).bind fun full => .look looks_currentToken fun t => ?_
  refine .ite ?_ (.ite (.pure _) (keeps_failNear _))
  exact (k.assignment _ _).bind fun r => .look looks_lastLine fun _ => .pure _

theorem keeps_assignment (k : Scoping n) (target : Expr) (name? : Option Bytes) :
    Keeps id (assignment (n + 1) target name?) := by
  rw [assignment.eq_def]
  refine .ite (.look (looks_failNear _) fun _ => ?value) ?place
  case value | place =>
    refine .look (looks_checkAssignable _ _) fun _ => (keeps_testNext _).bind fun r => .ite (.nested ?_) ?_
    · exact k.primary.bind fun r => (k.suffixes r.1).bind fun full => (k.assignment _ _).thenPure
    · exact (keeps_expect _).bind fun _ => k.exprList.thenPure

end Statements

/-- What the readers of the grammar do to the scopes, whatever the fuel. -/
theorem scoping : ∀ n, Scoping n
  | 0 => {
      subExpr := fun _ => by rw [subExpr]; exact keeps_failNear _
      operators := fun _ _ => by rw [operators]; exact keeps_failNear _
      simpleExpr := by rw [simpleExpr]; exact keeps_failNear _
      primary := by rw [primary]; exact keeps_failNear _
      suffixed := by rw [suffixed]; exact keeps_failNear _
      suffixes := fun _ => by rw [suffixes]; exact keeps_failNear _
      bracketKey := by rw [bracketKey]; exact keeps_failNear _
      callArgs := by rw [callArgs]; exact keeps_failNear _
      exprList := by rw [exprList]; exact keeps_failNear _
      constructor := by rw [constructor]; exact keeps_failNear _
      fieldList := by rw [fieldList]; exact keeps_failNear _
      field := by rw [field]; exact keeps_failNear _
      funcBody := fun _ _ => by rw [funcBody]; exact keeps_failNear _
      statements := by rw [statements]; exact keeps_failNear _
      block := by rw [block]; exact keeps_failNear _
      returnStmt := by rw [returnStmt]; exact keeps_failNear _
      statement := by rw [statement]; exact keeps_failNear _
      ifStmt := fun _ => by rw [ifStmt]; exact keeps_failNear _
      forStmt := fun _ => by rw [forStmt]; exact keeps_failNear _
      forBody := fun _ _ => by rw [forBody]; exact keeps_failNear _
      functionStmt := fun _ => by rw [functionStmt]; exact keeps_failNear _
      functionName := fun _ => by rw [functionName]; exact keeps_failNear _
      localFunction := by rw [localFunction]; exact keeps_failNear _
      localStmt := by rw [localStmt]; exact keeps_failNear _
      labelStmt := fun _ _ => by rw [labelStmt]; exact keeps_failNear _
      emptyStatements := by rw [emptyStatements]; exact keeps_failNear _
      exprStmt := by rw [exprStmt]; exact keeps_failNear _
      assignment := fun _ _ => by rw [assignment]; exact keeps_failNear _ }
  | n + 1 => by
    have k := scoping n
    exact {
      subExpr := keeps_subExpr k
      operators := keeps_operators k
      simpleExpr := keeps_simpleExpr k
      primary := keeps_primary k
      suffixed := keeps_suffixed k
      suffixes := keeps_suffixes k
      bracketKey := keeps_bracketKey k
      callArgs := keeps_callArgs k
      exprList := keeps_exprList k
      constructor := keeps_constructor k
      fieldList := keeps_fieldList k
      field := keeps_field k
      funcBody := keeps_funcBody k
      statements := keeps_statements k
      block := keeps_block k
      returnStmt := keeps_returnStmt k
      statement := keeps_statement k
      ifStmt := keeps_ifStmt k
      forStmt := keeps_forStmt k
      forBody := keeps_forBody k
      functionStmt := keeps_functionStmt k
      functionName := keeps_functionName k
      localFunction := keeps_localFunction k
      localStmt := keeps_localStmt k
      labelStmt := keeps_labelStmt k
      emptyStatements := keeps_emptyStatements k
      exprStmt := keeps_exprStmt k
      assignment := keeps_assignment k }

end Scratchpad.Lua.Parser
