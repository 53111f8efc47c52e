import Scratchpad.Proofs.Lua.Parser.Reads

/-!
# The readers of the grammar look one token ahead

`Grammar n` lists what `Reads` says of each reader of the grammar with the fuel `n`. The readers of expressions do not
tell the end of the program, a name and `return` apart when they stop (`Inert`); the readers of statements in a row do,
and so does that of labels. Main statement: all of this holds for every fuel (`grammar`).
-/

namespace Scratchpad.Lua.Parser

/-- The tokens that readers of expressions and of most statements stop at without telling them apart. -/
def Inert : Token → Prop
  | .eof | .name _ | .word .kReturn | .word .kDo => True
  | _ => False

/-- The tokens that labels do not tell apart either. -/
def Calm (t : Token) : Prop :=
  Inert t ∧ t ≠ .eof

@[elab_as_elim]
theorem Inert.cases {C : Token → Prop} {t : Token} (h : Inert t) (heof : C .eof) (hname : ∀ w, C (.name w))
    (hret : C (.word .kReturn))
    (hdo : C (.word .kDo)) : C t := by
  cases t with
  | eof => exact heof
  | name w => exact hname w
  | word k => cases k <;> first | exact hret | exact hdo | exact h.elim
  | _ => exact h.elim

theorem Calm.endsBlock {t : Token} (h : Calm t) : endsBlock false t = false :=
  h.1.cases (C := fun t => t ≠ .eof → Parser.endsBlock false t = false) (fun h => absurd rfl h) (fun _ _ => rfl)
    (fun _ => rfl) (fun _ => rfl) h.2

theorem Inert.ne_sym {t : Token} (h : Inert t) (s : Sym) : t ≠ .sym s :=
  h.cases (by simp) (by simp) (by simp) (by simp)

/-- What is known of the readers with the fuel `n`. -/
structure Grammar (n : Nat) : Prop where
  subExpr : ∀ limit, Reads n Inert Any 1 4 fun m => subExpr m limit
  operators : ∀ limit e, Reads n Inert Any 0 1 fun m => operators m limit e
  simpleExpr : Reads n Inert Any 1 3 simpleExpr
  primary : Reads n Inert Any 1 1 primary
  suffixed : Reads n Inert Any 1 2 suffixed
  suffixes : ∀ e, Reads n Inert Any 0 3 fun m => suffixes m e
  bracketKey : Reads n Inert (· = .sym .lbracket) 1 1 bracketKey
  callArgs : Reads n Inert Any 1 2 callArgs
  exprList : Reads n Inert Any 1 5 exprList
  constructor : Reads n Inert Any 1 1 constructor
  fieldList : Reads n Inert Any 0 6 fieldList
  field : Reads n Inert Any 1 5 field
  funcBody : ∀ isMethod line, Reads n Inert Any 1 1 fun m => funcBody m isMethod line
  statements : Reads n Never Any 0 4 statements
  block : Reads n Never Any 0 5 block
  returnStmt : Reads n Never (· = .word .kReturn) 1 1 returnStmt
  statement : Reads n Inert (· ≠ .sym .dcolon) 1 3 statement
  anyStatement : Reads n Calm Any 1 3 Parser.statement
  ifStmt : ∀ line, Reads n Inert Any 1 5 fun m => ifStmt m line
  forStmt : ∀ line, Reads n Inert (· = .word .kFor) 1 1 fun m => forStmt m line
  forBody : ∀ names line, Reads n Inert Any 1 1 fun m => forBody m names line
  functionStmt : ∀ line, Reads n Inert Any 1 1 fun m => functionStmt m line
  functionName : ∀ target, Reads n Inert Any 0 1 fun m => functionName m target
  localFunction : Reads n Inert Any 1 1 localFunction
  localStmt : Reads n Inert Any 1 2 localStmt
  labelStmt : ∀ name line, Reads n Calm Any 1 1 fun m => labelStmt m name line
  emptyStatements : Reads n Calm Any 0 4 emptyStatements
  exprStmt : Reads n Inert Any 1 2 exprStmt
  assignment : ∀ target name?, Reads n Inert Any 1 1 fun m => assignment m target name?

section Expressions

variable {n : Nat}

theorem infixOf_inert {t : Token} (h : Inert t) : infixOf t = none :=
  h.cases rfl (fun _ => rfl) rfl rfl

theorem ne_of_eq {t u : Token} (h : t ≠ u) (v : Token) (hv : v = t) : v ≠ u :=
  hv ▸ h

theorem reads_subExpr (g : Grammar n) (limit : Nat) : Reads (n + 1) Inert Any 1 4 fun m => subExpr m limit := by
  refine .succ (fun m => by rw [subExpr]) (.nested (.peek (fun t _ => ?_) (by simp)))
  dsimp only
  split
  · rename_i op hop
    have ht : t ≠ .eof := by
      rintro rfl
      cases hop
    refine .peekLine (by decide) fun line => .consume (ne_of_eq ht) ((g.subExpr _).seq (by omega) fun e => ?_)
    exact .silent_bind silent_lastLine fun _ => .silent_bind (.pure _) fun first => (g.operators limit first).last (by omega) (by omega)
  · exact g.simpleExpr.seq (by omega) fun first => (g.operators limit first).last (by omega) (by omega)

theorem reads_operators (g : Grammar n) (limit : Nat) (e : Expr) :
    Reads (n + 1) Inert Any 0 1 fun m => operators m limit e := by
  refine .succ (fun m => by rw [operators]) (.peek (fun t _ => ?_) fun _ t u ht hu _ => ?_)
  · dsimp only
    split
    · rename_i i left right hinfix
      have ht : t ≠ .eof := by
        rintro rfl
        cases hinfix
      split
      · refine .some (.peekLine (by decide) fun line => .consume (ne_of_eq ht) (.silent_bind silent_lastLine fun _ => ?_))
        refine (g.subExpr _).seq (by omega) fun r => .silent_bind silent_lastLine fun _ => (g.operators limit _).last (by omega) (by omega)
      · exact reads_pure e
    · exact reads_pure e
  · simp only [infixOf_inert ht, infixOf_inert hu]

theorem reads_simpleExpr (g : Grammar n) : Reads (n + 1) Inert Any 1 3 simpleExpr := by
  refine .succ (fun m => by rw [simpleExpr]) (.peek (fun t _ => ?_) (by simp))
  have hconstant : ∀ {t : Token} (e : Expr), t ≠ .eof →
      Reads n Inert (· = t) 1 2 fun _ => advance >>= fun _ => (pure e : Parse Expr) :=
    fun e ht => .consume (ne_of_eq ht) (reads_pure e)
  split
  · exact hconstant _ (by simp)
  · exact hconstant _ (by simp)
  · exact hconstant _ (by simp)
  · exact hconstant _ (by simp)
  · exact hconstant _ (by simp)
  · refine .silent_bind silent_func fun f => ?_
    split
    · exact hconstant _ (by simp)
    · exact reads_failNear _
  · exact g.constructor.last (by omega) (by omega)
  · refine .peekLine (by decide) fun line => .consume (ne_of_eq (by simp)) ((g.funcBody _ _).seq (by omega) fun f => reads_pure _).some
  · exact g.suffixed.last (by omega) (by omega)

theorem reads_primary (g : Grammar n) : Reads (n + 1) Inert Any 1 1 primary := by
  refine .succ (fun m => by rw [primary]) (.peek (fun t _ => ?_) (by simp))
  split
  · refine .consume (ne_of_eq (by simp)) (.silent_bind (silent_nameExpr _) fun e => reads_pure _)
  · refine .peekLine (by decide) fun line => .consume (ne_of_eq (by simp)) ((g.subExpr 0).seq (by omega) fun e => ?_)
    exact .expectMatch (by simp) (.silent_bind silent_lastLine fun _ => reads_pure _)
  · exact reads_failNear _

theorem reads_suffixed (g : Grammar n) : Reads (n + 1) Inert Any 1 2 suffixed := by
  refine .succ (fun m => by rw [suffixed]) (g.primary.seq (by omega) fun r => ?_)
  exact (g.suffixes r.1).last (by omega) (by omega)

theorem reads_suffixes (g : Grammar n) (e : Expr) : Reads (n + 1) Inert Any 0 3 fun m => suffixes m e := by
  refine .succ (fun m => by rw [suffixes]) (.peek (fun t _ => ?_) fun _ t u ht hu _ => ?_)
  · have hcall : ∀ {t : Token} (build : List Expr × Nat → Expr), Reads n Inert (· = t) 0 2 fun m =>
        callArgs m >>= fun r => suffixes m (build r) := fun build =>
      g.callArgs.seq (by omega) fun r => (g.suffixes _).last (by omega) (by omega)
    split
    · refine .some (.silent_bind silent_lastLine fun _ => .consume (ne_of_eq (by simp)) ?_)
      exact reads_expectName.seq (by omega) fun name => (g.suffixes _).last (by omega) (by omega)
    · refine .silent_bind silent_lastLine fun _ => ?_
      exact g.bracketKey.seqFrom (fun _ h => h) (by omega) fun key => (g.suffixes _).last (by omega) (by omega)
    · refine .some (.consume (ne_of_eq (by simp)) (.silent_bind silent_lastLine fun _ => ?_))
      refine reads_expectName.seq (by omega) fun name => .silent_bind silent_lastLine fun _ => ?_
      exact g.callArgs.seq (by omega) fun r => (g.suffixes _).last (by omega) (by omega)
    · exact .silent_bind silent_lastLine fun _ => hcall _
    · exact .silent_bind silent_lastLine fun _ => hcall _
    · exact .silent_bind silent_lastLine fun _ => hcall _
    · exact reads_pure e
  · refine Eq.trans (b := pure e) ?_ (Eq.symm ?_)
    · exact ht.cases rfl (fun _ => rfl) rfl rfl
    · exact hu.cases rfl (fun _ => rfl) rfl rfl

theorem reads_bracketKey (g : Grammar n) : Reads (n + 1) Inert (· = .sym .lbracket) 1 1 bracketKey := by
  refine .succ (fun m => by rw [bracketKey]) (.consume (ne_of_eq (by simp)) ((g.subExpr 0).seq (by omega) fun key => ?_))
  exact .silent_bind silent_lastLine fun _ => .expect (by simp) (reads_pure _)

theorem reads_callArgs (g : Grammar n) : Reads (n + 1) Inert Any 1 2 callArgs := by
  refine .succ (fun m => by rw [callArgs]) (.peekLine (by decide) fun line => .peek (fun t _ => ?_) (by simp))
  split
  · refine .consume (ne_of_eq (by simp)) (.test (by simp) (fun h => h) (reads_pure _) (g.exprList.seq (by omega) fun args => ?_))
    exact .expectMatch (by simp) (.silent_bind silent_lastLine fun _ => reads_pure _)
  · exact g.constructor.seq (by omega) fun _ => reads_pure _
  · exact .consume (ne_of_eq (by simp)) (reads_pure _)
  · exact reads_failNear _

theorem reads_exprList (g : Grammar n) : Reads (n + 1) Inert Any 1 5 exprList := by
  refine .succ (fun m => by rw [exprList]) ((g.subExpr 0).seq (by omega) fun e => .testSym (fun h => h) ?_ (reads_pure _))
  exact .silent_bind silent_lastLine fun _ => (g.exprList.seq (by omega) fun es => reads_pure _).some

theorem reads_constructor (g : Grammar n) : Reads (n + 1) Inert Any 1 1 constructor := by
  refine .succ (fun m => by rw [constructor]) (.peekLine (by decide) fun line => .expectSym (g.fieldList.seq (by omega) fun fs => ?_))
  exact .expectMatch (by simp) (.silent_bind silent_lastLine fun _ => reads_pure _)

theorem reads_fieldSeparator : Reads n Inert Any 0 0 fun _ => fieldSeparator :=
  .testSym (fun h => h) (reads_pure true) (reads_testSym fun h => h)

theorem reads_fieldList (g : Grammar n) : Reads (n + 1) Inert Any 0 6 fieldList := by
  refine .succ (fun m => by rw [fieldList]) (.peek (fun t _ => ?_) fun _ t u ht hu m => ?_)
  · split
    · exact reads_pure []
    · refine .some (g.field.seq (by omega) fun f => reads_fieldSeparator.seq (by omega) fun r => ?_)
      split
      · exact .silent_bind silent_lastLine fun line => g.fieldList.seq (by omega) fun fs => reads_pure _
      · exact reads_pure _
  · rw [if_neg (ht.ne_sym _), if_neg (hu.ne_sym _)]

theorem reads_field (g : Grammar n) : Reads (n + 1) Inert Any 1 5 field := by
  have hvalue : ∀ (key : Expr) {b : Nat}, 4 ≤ b + 20 → Reads n Inert Any 1 b fun m => do
      expectSym .assign
      let v ← subExpr m 0
      let line ← lastLine
      return Field.keyed key (v.settle line) line := fun key b hb =>
    .expectSym ((g.subExpr 0).seq hb fun v => .silent_bind silent_lastLine fun _ => reads_pure _).some
  refine .succ (fun m => by rw [field]) (.peek (fun t _ => ?_) (by simp))
  split
  · refine .peekSecond (by decide) (fun u => ?_) fun u v hu hv m => ?_
    · split
      · exact .consume (ne_of_eq (by simp)) (hvalue _ (by omega)).some
      · exact (g.subExpr 0).seq (by omega) fun e => reads_pure _
    · rw [if_neg (hu.ne_sym _), if_neg (hv.ne_sym _)]
  · exact g.bracketKey.seqFrom (fun _ h => h) (by omega) fun key => (hvalue key (by omega)).some
  · exact (g.subExpr 0).seq (by omega) fun e => reads_pure _

end Expressions

/-! ## Names and functions -/

section Names

variable {n : Nat}

theorem reads_moreNames : ∀ n, Reads n Inert Any 0 1 moreNames
  | 0 => .zero rfl
  | n + 1 => by
    refine .succ (fun m => by rw [moreNames]) (.testSym (fun h => h) ?_ (reads_pure _))
    exact reads_expectName.seq (by omega) fun name => (reads_moreNames n).seq (by omega) fun names => reads_pure _

theorem reads_paramList : ∀ n, Reads n Inert Any 1 1 paramList
  | 0 => .zero rfl
  | n + 1 => by
    refine .succ (fun m => by rw [paramList]) (.peek (fun t _ => ?_) (by simp))
    split
    · refine .consume (ne_of_eq (by simp)) (.testSym (fun h => h) ?_ (reads_pure _))
      exact (reads_paramList n).seq (by omega) fun r => reads_pure _
    · exact .consume (ne_of_eq (by simp)) (reads_pure _)
    · exact reads_failNear _

theorem reads_angleBinding : Reads n Inert Any 0 0 fun _ => angleBinding := by
  refine .testSym (fun h => h) ?_ (reads_pure _)
  refine .some (reads_expectName.seq (by omega) fun name => .expectSym ?_)
  split
  · exact reads_pure _
  · split
    · exact reads_pure _
    · exact reads_failHere _

theorem reads_attributedNames : ∀ n closing, Reads n Inert Any 1 1 fun m => attributedNames m closing
  | 0, _ => .zero rfl
  | n + 1, closing => by
    refine .succ (fun m => by rw [attributedNames]) (reads_expectName.seq (by omega) fun name => reads_angleBinding.seq (by omega) fun b => ?_)
    dsimp only
    split
    · exact reads_failHere _
    · refine .testSym (fun h => h) ?_ (reads_pure _)
      exact (reads_attributedNames n _).seq (by omega) fun rest => reads_pure _

theorem silent_pushFunc (fs : FuncScope) : Silent (modify fun s => { s with funcs := fs :: s.funcs } : Parse PUnit) :=
  .modify (fun _ => ⟨rfl, rfl, rfl⟩) fun _ _ _ => rfl

theorem silent_popFunc : Silent (modify fun s => { s with funcs := s.funcs.drop 1 } : Parse PUnit) :=
  .modify (fun _ => ⟨rfl, rfl, rfl⟩) fun _ _ _ => rfl

theorem silent_source : Silent (get >>= fun s => pure s.source : Parse Bytes) :=
  .get_bind (fun _ => .pure _) fun _ _ _ => rfl

theorem reads_funcBody (g : Grammar n) (isMethod : Bool) (line : Nat) :
    Reads (n + 1) Inert Any 1 1 fun m => funcBody m isMethod line := by
  refine .succ (fun m => by rw [funcBody]) (.silent_bind (silent_pushFunc _) fun _ => ?_)
  refine .silent_bind (silent_enterBlock _) fun _ => .expectSym (.some ?_)
  refine .peek (fun t _ => ?_) (by simp)
  dsimp only
  refine .ite (reads_pure _) (reads_paramList n).some (by omega) fun r => ?_
  refine .silent_bind (silent_checkLocals _) fun _ => .silent_bind (silent_declare _) fun _ => ?_
  refine .silent_bind (silent_modifyFunc _) fun _ => .expectSym (.some ?_)
  refine g.statements.seqThrough (by omega) (by omega) fun body => .expectMatch (by simp) ?_
  refine .silent_bind silent_leaveBlock fun _ => .silent_bind silent_popFunc fun _ => ?_
  exact (silent_source.bind fun _ => .pure _).reads

end Names

/-! ## Statements -/

section Statements

variable {n : Nat}

theorem reads_statements (g : Grammar n) : Reads (n + 1) Never Any 0 4 statements := by
  refine .succ (fun m => by rw [statements]) (.peek (fun t _ => ?_) fun _ _ _ h => h.elim)
  split
  · exact reads_pure _
  · split
    · rename_i ht
      refine g.returnStmt.nested.seqFrom (fun v hv => hv.trans ht) (by omega) fun r => ?_
      exact reads_pure _
    · have hstatement := g.anyStatement.nested.never
      refine hstatement.seq (by omega) fun ss => ?_
      exact g.statements.seq (by omega) fun _ => reads_pure _

theorem reads_block (g : Grammar n) : Reads (n + 1) Never Any 0 5 block :=
  .succ (fun m => by rw [block]) g.statements.inBlock

theorem reads_returnStmt (g : Grammar n) : Reads (n + 1) Never (· = .word .kReturn) 1 1 returnStmt := by
  refine .succ (fun m => by rw [returnStmt]) (.consume (ne_of_eq (by simp)) (.peek (fun t _ => ?_) fun _ _ _ h => h.elim))
  refine .ite (reads_pure _) g.exprList.never.some (by omega) fun values => ?_
  refine .silent_bind silent_lastLine fun line => (reads_testSym (P := Any) (b := 0) fun h => h).seq (by omega) fun _ => ?_
  exact .silent_bind silent_func fun fs => reads_pure _

theorem reads_statement (g : Grammar n) {S P : Token → Prop} (hS : ∀ t, S t → Inert t)
    (hlabel : P (.sym .dcolon) → ∀ name line, Reads n S Any 1 1 fun m => labelStmt m name line) :
    Reads (n + 1) S P 1 3 statement := by
  refine .succ (fun m => by rw [statement]) (.peekLine (by decide) fun line => .peek (fun t hP => ?_) (by simp))
  by_cases ht : t = .sym .dcolon
  · subst ht
    exact .consume (ne_of_eq (by simp)) (reads_expectName.seq (by omega) fun name => (hlabel hP name line).last (by omega) (by omega))
  · refine Reads.mono (S := Inert) ?_ hS (fun _ h => h) (Nat.le_refl 1) (Nat.le_refl 2)
    split
    · exact .consume (ne_of_eq (by simp)) (reads_pure _)
    · exact .consume (ne_of_eq (by simp)) ((g.ifStmt line).seq (by omega) fun s => reads_pure _)
    · refine .consume (ne_of_eq (by simp)) ((g.subExpr 0).seq (by omega) fun cond => .silent_bind silent_lastLine fun _ => ?_)
      refine .inBlock (.some (.expect (by simp) (.some (g.block.seqThrough (by omega) (by omega) fun body => ?_))))
      exact .expectMatch (by simp) (reads_pure _)
    · refine .consume (ne_of_eq (by simp)) (.some (g.block.seqThrough (by omega) (by omega) fun body => ?_))
      exact .expectMatch (by simp) (reads_pure _)
    · exact (g.forStmt line).lastFrom (fun _ h => h) (by omega) (by omega)
    · refine .consume (ne_of_eq (by simp)) (.inBlock (.inBlock (.some (g.statements.seqThrough (by omega) (by omega) fun body => ?_))))
      refine .expectMatch (by simp) ((g.subExpr 0).seq (by omega) fun cond => .silent_bind silent_lastLine fun _ => reads_pure _)
    · exact .consume (ne_of_eq (by simp)) ((g.functionStmt line).seq (by omega) fun s => reads_pure _)
    · exact .consume (ne_of_eq (by simp)) (.test (by simp) (fun h => h) (g.localFunction.last (by omega) (by omega))
        (g.localStmt.last (by omega) (by omega)))
    · exact absurd rfl ht
    · exact .consume (ne_of_eq (by simp)) (.silent_bind (silent_addPending _ _) fun _ => reads_pure _)
    · refine .consume (ne_of_eq (by simp)) (reads_expectName.seq (by omega) fun name => .silent_bind (silent_findLabel name) fun l => ?_)
      split
      · exact .silent_bind (.pure _) fun _ => reads_pure _
      · exact .silent_bind (silent_addPending _ _) fun _ => reads_pure _
    · exact g.exprStmt.last (by omega) (by omega)

theorem reads_ifStmt (g : Grammar n) (line : Nat) : Reads (n + 1) Inert Any 1 5 fun m => ifStmt m line := by
  refine .succ (fun m => by rw [ifStmt]) ?_
  refine (g.subExpr 0).seq (by omega) fun cond => .some (.expect (by simp) (.some ?_))
  refine .silent_bind silent_lastLine fun _ => g.block.seqThrough (by omega) (by omega) fun body => .peek (fun t _ => ?_) (by simp)
  split
  · exact .consume (ne_of_eq (by simp)) ((g.ifStmt line).seq (by omega) fun s => reads_pure _)
  · refine .consume (ne_of_eq (by simp)) (.some (g.block.seqThrough (by omega) (by omega) fun body => ?_))
    exact .expectMatch (by simp) (reads_pure _)
  · exact .expectMatch (by simp) (reads_pure _)

theorem reads_forBody (g : Grammar n) (names : List Bytes) (line : Nat) :
    Reads (n + 1) Inert Any 1 1 fun m => forBody m names line := by
  refine .succ (fun m => by rw [forBody]) ?_
  refine .expect (by simp) (.some (.silent_bind silent_lastLine fun doLine => ?_))
  have hbody : Reads n Never Any 0 4 fun m => inBlock false (do
      checkLocals names.length
      declare (plainLocals names)
      statements m) :=
    .inBlock (.silent_bind (silent_checkLocals _) fun _ => .silent_bind (silent_declare _) fun _ => g.statements)
  exact hbody.seqThrough (by omega) (by omega) fun body => .expectMatch (by simp) (reads_pure _)

theorem reads_forStmt (g : Grammar n) (line : Nat) :
    Reads (n + 1) Inert (· = .word .kFor) 1 1 fun m => forStmt m line := by
  refine .succ (fun m => by rw [forStmt]) (.inBlock (.consume (ne_of_eq (by simp)) (.some ?_)))
  refine reads_expectName.seq (by omega) fun name => .some (.peek (fun t _ => ?_) (by simp))
  have hbound : Reads n Inert Any 0 4 fun m => do
      let e ← subExpr m 0
      return e.settle (← lastLine) :=
    .some ((g.subExpr 0).seq (by omega) fun e => .silent_bind silent_lastLine fun _ => reads_pure _)
  split
  case h_1 =>
    refine .consume (ne_of_eq (by simp)) (hbound.seq (by omega) fun start => .expectSym ?_)
    refine hbound.seq (by omega) fun stop => .choose (fun h => h) hbound (reads_pure _) (by omega) fun step => ?_
    exact (g.forBody _ _).seq (by omega) fun r => reads_pure _
  case h_2 | h_3 =>
    refine (reads_moreNames n).seq (by omega) fun more => .expect (t := .word .kIn) (by simp) (.some ?_)
    refine .peekLine (by decide) fun callLine => ?_
    refine g.exprList.seq (by omega) fun values => .silent_bind silent_lastLine fun _ => ?_
    exact .silent_bind (silent_modifyBlock _) fun _ => (g.forBody _ _).seq (by omega) fun r => reads_pure _
  case h_4 => exact reads_failNear _

theorem reads_functionStmt (g : Grammar n) (line : Nat) : Reads (n + 1) Inert Any 1 1 fun m => functionStmt m line := by
  refine .succ (fun m => by rw [functionStmt]) ?_
  refine reads_expectName.seq (by omega) fun name => .silent_bind (silent_nameExpr name) fun e => ?_
  refine (g.functionName e).seq (by omega) fun r => ?_
  have hbody := (g.funcBody r.2 line).some
  exact hbody.seq (by omega) fun f => .silent_bind (silent_checkAssignable _ _) fun _ => reads_pure _

theorem reads_functionName (g : Grammar n) (e : Expr) : Reads (n + 1) Inert Any 0 1 fun m => functionName m e := by
  refine .succ (fun m => by rw [functionName]) (.peek (fun t _ => ?_) fun _ t u ht hu m => ?_)
  · split
    · refine .silent_bind silent_lastLine fun _ => .some (.consume (ne_of_eq (by simp)) ?_)
      exact reads_expectName.seq (by omega) fun name => (g.functionName _).last (by omega) (by omega)
    · refine .silent_bind silent_lastLine fun _ => .some (.consume (ne_of_eq (by simp)) ?_)
      exact reads_expectName.seq (by omega) fun name => reads_pure _
    · exact reads_pure _
  · refine Eq.trans (b := pure (e, false)) ?_ (Eq.symm ?_)
    · exact ht.cases rfl (fun _ => rfl) rfl rfl
    · exact hu.cases rfl (fun _ => rfl) rfl rfl

theorem reads_localFunction (g : Grammar n) : Reads (n + 1) Inert Any 1 1 localFunction := by
  refine .succ (fun m => by rw [localFunction]) (reads_expectName.seq (by omega) fun name => .some ?_)
  refine .silent_bind (silent_checkLocals _) fun _ => .silent_bind (silent_declare _) fun _ => ?_
  exact .peekLine (by decide) fun line => (g.funcBody false line).seq (by omega) fun f => reads_pure _

theorem reads_localStmt (g : Grammar n) : Reads (n + 1) Inert Any 1 2 localStmt := by
  refine .succ localStmt_succ ((reads_attributedNames n false).seq (by omega) fun names => ?_)
  refine .choose (fun h => h) g.exprList.some (reads_pure _) (by omega) fun values => ?_
  exact (silent_declareLocals names values).reads

theorem reads_labelStmt (g : Grammar n) (name : Bytes) (line : Nat) :
    Reads (n + 1) Calm Any 1 1 fun m => labelStmt m name line := by
  refine .succ (fun m => by rw [labelStmt]) (.expectSym (g.emptyStatements.seq (by omega) fun skipped => ?_))
  refine .silent_bind (silent_findLabel name) fun found => ?_
  split
  · exact reads_failHere _
  · refine .silent_bind silent_func fun fs => .peek (fun t _ => ?_) fun _ t u ht hu m => ?_
    · refine .silent_bind silent_scopeDepth fun _ => .silent_bind (silent_modifyBlock _) fun _ => ?_
      exact .silent_bind (silent_solve _) fun _ => reads_pure _
    · rw [ht.endsBlock, hu.endsBlock]

theorem reads_emptyStatements (g : Grammar n) : Reads (n + 1) Calm Any 0 4 emptyStatements := by
  refine .succ (fun m => by rw [emptyStatements]) (.peek (fun t _ => ?_) fun _ t u ht hu m => ?_)
  · split
    · exact g.anyStatement.nested.seq (by omega) fun ss => g.emptyStatements.seq (by omega) fun _ => reads_pure _
    · exact g.anyStatement.nested.seq (by omega) fun ss => g.emptyStatements.seq (by omega) fun _ => reads_pure _
    · exact reads_pure _
  · refine Eq.trans (b := pure []) ?_ (Eq.symm ?_)
    · exact ht.1.cases rfl (fun _ => rfl) rfl rfl
    · exact hu.1.cases rfl (fun _ => rfl) rfl rfl

theorem reads_exprStmt (g : Grammar n) : Reads (n + 1) Inert Any 1 2 exprStmt := by
  refine .succ (fun m => by rw [exprStmt]) (g.primary.seq (by omega) fun r => (g.suffixes r.1).seq (by omega) fun full => ?_)
  refine .peek (fun t _ => ?_) fun _ t u ht hu m => ?_
  · dsimp only
    split
    · refine .some ((g.assignment _ _).seq (by omega) fun r => .silent_bind silent_lastLine fun _ => reads_pure _)
    · split
      · exact reads_pure _
      · exact reads_failNear _
  · have hstop : ∀ {t : Token}, Inert t → (t = .sym .assign || t = .sym .comma) = false := fun h =>
      h.cases rfl (fun _ => rfl) rfl rfl
    dsimp only
    rw [hstop ht, hstop hu]

theorem reads_assignment (g : Grammar n) (target : Expr) (name? : Option Bytes) :
    Reads (n + 1) Inert Any 1 1 fun m => assignment m target name? := by
  refine .succ (fun m => by rw [assignment.eq_def]) ?_
  dsimp only
  refine .unless (.silent_bind (silent_checkAssignable _ _) fun _ => .testSym (fun h => h) ?_ ?_)
  · refine .nested (g.primary.seq (by omega) fun r => (g.suffixes r.1).seq (by omega) fun full => ?_)
    exact .some ((g.assignment _ _).seq (by omega) fun r => reads_pure _)
  · exact .expectSym (g.exprList.some.seq (by omega) fun _ => reads_pure _)

end Statements

/-- What holds of the readers of the grammar, whatever the fuel. -/
theorem grammar : ∀ n, Grammar n
  | 0 => by
    exact {
      subExpr := fun _ => .zero (by rw [subExpr])
      operators := fun _ _ => .zero (by rw [operators])
      simpleExpr := .zero (by rw [simpleExpr])
      primary := .zero (by rw [primary])
      suffixed := .zero (by rw [suffixed])
      suffixes := fun _ => .zero (by rw [suffixes])
      bracketKey := .zero (by rw [bracketKey])
      callArgs := .zero (by rw [callArgs])
      exprList := .zero (by rw [exprList])
      constructor := .zero (by rw [constructor])
      fieldList := .zero (by rw [fieldList])
      field := .zero (by rw [field])
      funcBody := fun _ _ => .zero (by rw [funcBody])
      statements := .zero (by rw [statements])
      block := .zero (by rw [block])
      returnStmt := .zero (by rw [returnStmt])
      statement := .zero (by rw [Parser.statement])
      anyStatement := .zero (by rw [Parser.statement])
      ifStmt := fun _ => .zero (by rw [ifStmt])
      forStmt := fun _ => .zero (by rw [forStmt])
      forBody := fun _ _ => .zero (by rw [forBody])
      functionStmt := fun _ => .zero (by rw [functionStmt])
      functionName := fun _ => .zero (by rw [functionName])
      localFunction := .zero (by rw [localFunction])
      localStmt := .zero (by rw [localStmt])
      labelStmt := fun _ _ => .zero (by rw [labelStmt])
      emptyStatements := .zero (by rw [emptyStatements])
      exprStmt := .zero (by rw [exprStmt])
      assignment := fun _ _ => .zero (by rw [assignment]) }
  | n + 1 => by
    have g := grammar n
    exact {
      subExpr := reads_subExpr g
      operators := reads_operators g
      simpleExpr := reads_simpleExpr g
      primary := reads_primary g
      suffixed := reads_suffixed g
      suffixes := reads_suffixes g
      bracketKey := reads_bracketKey g
      callArgs := reads_callArgs g
      exprList := reads_exprList g
      constructor := reads_constructor g
      fieldList := reads_fieldList g
      field := reads_field g
      funcBody := reads_funcBody g
      statements := reads_statements g
      block := reads_block g
      returnStmt := reads_returnStmt g
      statement := reads_statement g (fun _ h => h) fun h => absurd rfl h
      anyStatement := reads_statement g (fun _ h => h.1) fun _ => g.labelStmt
      ifStmt := reads_ifStmt g
      forStmt := reads_forStmt g
      forBody := reads_forBody g
      functionStmt := reads_functionStmt g
      functionName := reads_functionName g
      localFunction := reads_localFunction g
      localStmt := reads_localStmt g
      labelStmt := reads_labelStmt g
      emptyStatements := reads_emptyStatements g
      exprStmt := reads_exprStmt g
      assignment := reads_assignment g }

end Scratchpad.Lua.Parser
