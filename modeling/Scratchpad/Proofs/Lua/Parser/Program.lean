import Scratchpad.Proofs.Lua.Lexer.Rest
import Scratchpad.Proofs.Lua.Parser.Closed
import Scratchpad.Proofs.Lua.Parser.Grammar
import Scratchpad.Proofs.Lua.Parser.Moves
import Scratchpad.Proofs.Lua.Parser.Scopes

/-!
# Programs as rows of statements

A program is valid if its statements can be read up to its end (`Yields`) and no jump is left without its label
(`Completes`). `Completes.cases` and `Completes.of_statement` take such a row apart and put it together, whatever the
fuel of the readers. Main statements: a text is parsed as the statements that its tokens yield (`parse_eq_ok_iff`), and
it is a program iff its tokens have no error and complete (`isProgram_iff`).
-/

namespace Scratchpad.Lua.Parser

variable {α : Type}

/-! ## Readers and fuel -/

section Fuel

variable {n m k b k' b' : Nat} {S S' P P' : Token → Prop} {p : Nat → Parse α} {s s' s₁ s₂ : State} {r r₁ r₂ : α}

theorem State.before_self (hf : s.failure = none) : s.before s.tokens none = s := by
  rcases s with ⟨tokens, failure, last, funcs, level, source⟩
  obtain rfl : failure = none := hf
  rfl

theorem reachable_none (ts : List Lexeme) : Reachable ts none := fun _ => rfl

/-- What a reader does with some fuel, it does with any greater one. -/
theorem Reads.enough (h : Reads n S P k b p) (hP : P (headToken s.tokens)) (hf : s.failure = none)
    (hrun : (p n).run s = .ok (r, s')) : ∃ m₀, ∀ m, m₀ ≤ m → (p m).run s = .ok (r, s') := by
  obtain ⟨C, hC, -, hfail, -, -, -, hlocal⟩ := h s r s' hP hrun
  refine ⟨b + 20 * C.length, fun m hm => ?_⟩
  have hthere := hlocal m s'.tokens none hm (.inl rfl) (reachable_none _)
  rwa [← hC, State.before_self hf, State.before_self (hfail.trans hf)] at hthere

/-- What a reader does does not depend on the fuel. -/
theorem Reads.agree (h : Reads n S P k b p) (h' : Reads m S' P' k' b' p) (hP : P (headToken s.tokens))
    (hP' : P' (headToken s.tokens)) (hf : s.failure = none) (hrun : (p n).run s = .ok (r₁, s₁))
    (hrun' : (p m).run s = .ok (r₂, s₂)) : r₁ = r₂ ∧ s₁ = s₂ := by
  obtain ⟨m₁, h₁⟩ := h.enough hP hf hrun
  obtain ⟨m₂, h₂⟩ := h'.enough hP' hf hrun'
  have heq := (h₁ (max m₁ m₂) (Nat.le_max_left _ _)).symm.trans (h₂ (max m₁ m₂) (Nat.le_max_right _ _))
  exact ⟨congrArg Prod.fst (Except.ok.inj heq), congrArg Prod.snd (Except.ok.inj heq)⟩

/-- A reader before another rest that looks the same to it. -/
theorem Reads.before (h : Reads n S P k b p) (hP : P (headToken s.tokens)) (hrun : (p n).run s = .ok (r, s'))
    {C ts : List Lexeme} (hC : s.tokens = C ++ s'.tokens) (hmeets : Meets S s'.tokens ts) :
    ∃ m, (p m).run (s.before (C ++ ts) none) = .ok (r, s'.before ts none) := by
  obtain ⟨C', hC', -, -, -, -, -, hlocal⟩ := h s r s' hP hrun
  obtain rfl : C = C' := List.append_cancel_right (hC.symm.trans hC')
  exact ⟨_, hlocal _ ts none (Nat.le_refl _) hmeets (reachable_none _)⟩

end Fuel

/-! ## The end of a program -/

/-- The jumps that look for a label outside the function when the only block of the innermost function ends. -/
def escaping (fs : List FuncScope) : List Pending :=
  match (fs.headD mainScope).blocks with
  | [b] => if b.isLoop then b.pending.filter fun g => g.name != bytes "break" else b.pending
  | _ => []

theorem run_func (s : State) : func.run s = .ok (s.funcs.headD mainScope, s) :=
  rfl

theorem leaveBlock_isOk_iff (s : State) : (∃ r, leaveBlock.run s = .ok r) ↔ escaping s.funcs = [] := by
  rw [leaveBlock, run_bind, run_func, escaping]
  dsimp only [Except.bind]
  rcases (s.funcs.headD mainScope).blocks with _ | ⟨b, _ | ⟨outer, more⟩⟩
  · exact ⟨fun _ => rfl, fun _ => ⟨_, rfl⟩⟩
  · dsimp only
    rw [run_bind]
    generalize (if b.isLoop then b.pending.filter fun g => g.name != bytes "break" else b.pending) = pending
    cases pending with
    | nil => exact ⟨fun _ => rfl, fun _ => ⟨_, rfl⟩⟩
    | cons g more =>
      constructor
      · rintro ⟨r, hr⟩
        obtain ⟨e, he⟩ := failUndefined_fails g _
        exact absurd (he.symm.trans hr) (by simp)
      · rintro ⟨⟩
  · exact ⟨fun _ => rfl, fun _ => ⟨_, rfl⟩⟩

/-- The remaining statements, up to the end of the program, are `body`, and no jump is left. -/
def Yields (s : State) (body : List Stmt) : Prop :=
  ∃ n s', (statements n).run s = .ok (body, s') ∧ headToken s'.tokens = .eof ∧ escaping s'.funcs = []

/-- The remaining statements can be read to the end of the program, and no jump is left. -/
def Completes (s : State) : Prop :=
  ∃ n body s', (statements n).run s = .ok (body, s') ∧ headToken s'.tokens = .eof ∧ escaping s'.funcs = []

section Yields

variable {s s' : State} {body : List Stmt}

theorem completes_iff : Completes s ↔ ∃ body, Yields s body :=
  ⟨fun ⟨n, body, s', h⟩ => ⟨body, n, s', h⟩, fun ⟨body, n, s', h⟩ => ⟨n, body, s', h⟩⟩

/-- What a program begins with. -/
theorem Yields.cases (h : Yields s body) :
    (headToken s.tokens = .eof ∧ body = [] ∧ escaping s.funcs = []) ∨
    (headToken s.tokens = .word .kReturn ∧ ∃ n r s', (nested (returnStmt n)).run s = .ok (r, s') ∧
      body = [r] ∧ headToken s'.tokens = .eof ∧ escaping s'.funcs = []) ∨
    endsBlock true (headToken s.tokens) = false ∧ headToken s.tokens ≠ .word .kReturn ∧
      ∃ n ss s' more, (nested (statement n)).run s = .ok (ss, s') ∧ body = ss ++ more ∧ Yields s' more := by
  obtain ⟨n, s', hrun, heof, hescaping⟩ := h
  cases n with
  | zero =>
    rw [statements] at hrun
    cases hrun
  | succ n =>
    rw [statements, run_bind, run_currentToken] at hrun
    change StateT.run (if endsBlock true (headToken s.tokens) = true then _ else _) s = _ at hrun
    split at hrun
    · cases hrun
      exact .inl ⟨heof, rfl, hescaping⟩
    · rename_i hends
      split at hrun
      · rename_i hret
        obtain ⟨r, s₁, hreturn, hpure⟩ := run_bind_eq_ok hrun
        cases hpure
        exact .inr (.inl ⟨hret, n, r, _, hreturn, rfl, heof, hescaping⟩)
      · rename_i hret
        obtain ⟨ss, s₁, hstatement, hrun⟩ := run_bind_eq_ok hrun
        obtain ⟨more, s₂, hmore, hpure⟩ := run_bind_eq_ok hrun
        cases hpure
        exact .inr (.inr ⟨Bool.eq_false_iff.2 hends, hret, n, ss, s₁, more, hstatement, rfl, n, _, hmore, heof,
          hescaping⟩)

theorem Yields.of_eof (heof : headToken s.tokens = .eof) (h : escaping s.funcs = []) : Yields s [] := by
  refine ⟨1, s, ?_, heof, h⟩
  rw [statements, run_bind, run_currentToken, heof]
  rfl

/-- A statement before the rest of a program. -/
theorem Yields.of_statement {n : Nat} {ss : List Stmt} (hf : s.failure = none)
    (hends : endsBlock true (headToken s.tokens) = false) (hret : headToken s.tokens ≠ .word .kReturn)
    (hrun : (nested (statement n)).run s = .ok (ss, s')) (h : Yields s' body) : Yields s (ss ++ body) := by
  obtain ⟨m, s₁, hbody, heof, hescaping⟩ := h
  have hstatement := (grammar n).anyStatement.nested
  obtain ⟨_, -, -, hfail, -⟩ := hstatement s ss s' trivial hrun
  obtain ⟨n₀, hn⟩ := hstatement.enough trivial hf hrun
  obtain ⟨m₀, hm⟩ := (grammar m).statements.enough trivial (hfail.trans hf) hbody
  refine ⟨max n₀ m₀ + 1, s₁, ?_, heof, hescaping⟩
  rw [statements, run_bind, run_currentToken]
  change StateT.run (if endsBlock true (headToken s.tokens) = true then _ else _) s = _
  rw [if_neg (by rw [hends]; simp), if_neg hret, run_bind, hn _ (Nat.le_max_left _ _)]
  change StateT.run (statements (max n₀ m₀) >>= _) s' = _
  rw [run_bind, hm _ (Nat.le_max_right _ _)]
  rfl

end Yields

section Completes

variable {s s' : State}

/-- What a program that completes begins with. -/
theorem Completes.cases (h : Completes s) :
    headToken s.tokens = .eof ∧ escaping s.funcs = [] ∨
    (headToken s.tokens = .word .kReturn ∧ ∃ n r s', (nested (returnStmt n)).run s = .ok (r, s') ∧
      headToken s'.tokens = .eof ∧ escaping s'.funcs = []) ∨
    endsBlock true (headToken s.tokens) = false ∧ headToken s.tokens ≠ .word .kReturn ∧
      ∃ n ss s', (nested (statement n)).run s = .ok (ss, s') ∧ Completes s' := by
  obtain ⟨body, h⟩ := completes_iff.1 h
  rcases h.cases with ⟨heof, -, h⟩ | ⟨hret, n, r, s', hrun, -, h⟩ | ⟨hends, hret, n, ss, s', more, hrun, -, h⟩
  · exact .inl ⟨heof, h⟩
  · exact .inr (.inl ⟨hret, n, r, s', hrun, h⟩)
  · exact .inr (.inr ⟨hends, hret, n, ss, s', hrun, completes_iff.2 ⟨more, h⟩⟩)

theorem Completes.of_eof (heof : headToken s.tokens = .eof) (h : escaping s.funcs = []) : Completes s :=
  completes_iff.2 ⟨[], .of_eof heof h⟩

/-- A statement before a program that completes. -/
theorem Completes.of_statement {n : Nat} {ss : List Stmt} (hf : s.failure = none)
    (hends : endsBlock true (headToken s.tokens) = false) (hret : headToken s.tokens ≠ .word .kReturn)
    (hrun : (nested (statement n)).run s = .ok (ss, s')) (h : Completes s') : Completes s := by
  obtain ⟨body, h⟩ := completes_iff.1 h
  exact completes_iff.2 ⟨ss ++ body, .of_statement hf hends hret hrun h⟩

/-- A program completes iff what follows its first statement does. -/
theorem completes_statement_iff {n : Nat} {ss : List Stmt} (hf : s.failure = none)
    (hends : endsBlock true (headToken s.tokens) = false) (hret : headToken s.tokens ≠ .word .kReturn)
    (hrun : (nested (statement n)).run s = .ok (ss, s')) : Completes s ↔ Completes s' := by
  refine ⟨fun h => ?_, .of_statement hf hends hret hrun⟩
  rcases h.cases with ⟨heof, -⟩ | ⟨hret', -⟩ | ⟨-, -, m, ss', s₁, hrun', h⟩
  · rw [heof] at hends
    cases hends
  · exact absurd hret' hret
  · have hagree := (grammar n).anyStatement.nested.agree (grammar m).anyStatement.nested trivial trivial hf hrun hrun'
    exact hagree.2 ▸ h

/-- Nothing is left to read of a program at its end. -/
theorem completes_eof_iff (heof : headToken s.tokens = .eof) : Completes s ↔ escaping s.funcs = [] := by
  refine ⟨fun h => ?_, .of_eof heof⟩
  rcases h.cases with ⟨-, h⟩ | ⟨hret, -⟩ | ⟨hends, -⟩
  · exact h
  · rw [heof] at hret
    cases hret
  · rw [heof] at hends
    cases hends

end Completes

/-! ## Tokens that begin nothing -/

/-- A token that can begin a statement other than `return`. -/
def beginsStatement : Token → Bool
  | .name _ | .sym .semi | .sym .dcolon | .sym .lparen => true
  | .word .kIf | .word .kWhile | .word .kDo | .word .kFor | .word .kRepeat | .word .kFunction | .word .kLocal => true
  | .word .kBreak | .word .kGoto => true
  | _ => false

theorem moves_exprStmt_nowhere (n : Nat) :
    Moves Barred Nowhere (exprStmt n) := by
  cases n with
  | zero => rw [exprStmt]; exact .failNear
  | succ n =>
    rw [exprStmt]
    exact (moves_primary_nowhere n).stop

/-- No statement begins with another token. -/
theorem moves_statement_nowhere (n : Nat) :
    Moves (fun ts => beginsStatement (headToken ts) = false) Nowhere (statement n) := by
  cases n with
  | zero => rw [statement]; exact .failNear
  | succ n =>
    rw [statement]
    refine .line fun line => .peek fun t => ?_
    rintro s r s' ⟨hs, rfl⟩
    have hpre : Barred s.tokens := by
      constructor
      · intro w hw
        rw [hw] at hs
        cases hs
      · intro hparen
        rw [hparen] at hs
        cases hs
    -- the other readers of statements are chosen by a token that begins one
    split
    all_goals first
      | (rename_i ht; rw [ht] at hs; cases hs)
      | exact moves_exprStmt_nowhere n s r s' hpre

/-- A program that begins with no statement does not complete. -/
theorem not_completes_of_head {s : State} (hbegins : beginsStatement (headToken s.tokens) = false)
    (heof : headToken s.tokens ≠ .eof) (hret : headToken s.tokens ≠ .word .kReturn) : ¬ Completes s := by
  intro h
  rcases h.cases with ⟨heof', -⟩ | ⟨hret', -⟩ | ⟨-, -, n, ss, s', hrun, -⟩
  · exact heof heof'
  · exact hret hret'
  · exact (moves_statement_nowhere n).nested s ss s' hbegins hrun

/-- A token that can begin an expression. -/
def beginsExpr : Token → Bool
  | .name _ | .number _ | .str _ | .sym .lparen | .sym .lbrace | .sym .dots => true
  | .word .kNil | .word .kTrue | .word .kFalse | .word .kFunction | .word .kNot => true
  | .sym .minus | .sym .tilde | .sym .hash => true
  | _ => false

theorem prefixOf_eq_none {t : Token} (h : beginsExpr t = false) : prefixOf t = none := by
  unfold prefixOf
  split <;> first | rfl | cases h

theorem moves_suffixed_nowhere (n : Nat) : Moves Barred Nowhere (suffixed n) := by
  cases n with
  | zero => rw [suffixed]; exact .failNear
  | succ n =>
    rw [suffixed]
    exact (moves_primary_nowhere n).stop

theorem barred_of_beginsExpr {ts : List Lexeme} (h : beginsExpr (headToken ts) = false) : Barred ts := by
  constructor
  · intro w hw
    rw [hw] at h
    cases h
  · intro hparen
    rw [hparen] at h
    cases h

theorem moves_simpleExpr_nowhere (n : Nat) :
    Moves (fun ts => beginsExpr (headToken ts) = false) Nowhere (simpleExpr n) := by
  cases n with
  | zero => rw [simpleExpr]; exact .failNear
  | succ n =>
    rw [simpleExpr]
    refine .peek fun t => ?_
    rintro s r s' ⟨hs, rfl⟩
    -- the other readers are chosen by a token that begins an expression
    split
    all_goals first
      | (rename_i ht; rw [ht] at hs; cases hs)
      | exact moves_suffixed_nowhere n s r s' (barred_of_beginsExpr hs)

theorem moves_subExpr_nowhere (n limit : Nat) :
    Moves (fun ts => beginsExpr (headToken ts) = false) Nowhere (subExpr n limit) := by
  cases n with
  | zero => rw [subExpr]; exact .failNear
  | succ n =>
    rw [subExpr]
    refine .nested (.peek fun t => ?_)
    rintro s r s' ⟨hs, rfl⟩
    rw [prefixOf_eq_none hs]
    exact ((moves_simpleExpr_nowhere n).stop) s r s' hs

theorem moves_exprList_nowhere (n : Nat) :
    Moves (fun ts => beginsExpr (headToken ts) = false) Nowhere (exprList n) := by
  cases n with
  | zero => rw [exprList]; exact .failNear
  | succ n =>
    rw [exprList]
    exact (moves_subExpr_nowhere n 0).stop

/-- A byte that begins no token. -/
def Stray (ts : List Lexeme) : Prop :=
  ∃ b, headToken ts = .stray b

/-- A local function without a name, or a stray byte before it. -/
def Misnamed (ts : List Lexeme) : Prop :=
  Stray ts ∨ Next (· = .word .kLocal) (fun ts => Stray ts ∨ Next (· = .word .kFunction) Barred ts) ts

theorem Stray.barred {ts : List Lexeme} (h : Stray ts) : Barred ts := by
  obtain ⟨b, hb⟩ := h
  rw [Barred, hb]
  exact ⟨by simp, by simp⟩

theorem moves_localStmt_nowhere (n : Nat) : Moves Barred Nowhere (localStmt n) := by
  have hnames : ∀ n closing, Moves Barred Nowhere (attributedNames n closing) := fun n closing => by
    cases n with
    | zero => exact .failNear
    | succ n =>
      rw [attributedNames]
      exact moves_expectName_nowhere.stop
  cases n with
  | zero => rw [localStmt]; exact .failNear
  | succ n =>
    rw [localStmt]
    exact (hnames n false).stop

theorem moves_localFunction_nowhere (n : Nat) : Moves Barred Nowhere (localFunction n) := by
  cases n with
  | zero => rw [localFunction]; exact .failNear
  | succ n =>
    rw [localFunction]
    exact moves_expectName_nowhere.stop

/-- No statement is misnamed. -/
theorem moves_local_nowhere (n : Nat) :
    Moves (Next (· = .word .kLocal) fun ts => Stray ts ∨ Next (· = .word .kFunction) Barred ts) Nowhere (statement n) := by
  cases n with
  | zero => rw [statement]; exact .failNear
  | succ n =>
    rw [statement]
    refine .line fun line => .peek fun t => ?_
    rintro s r s' ⟨hs, hhead⟩
    obtain rfl := hs.head.symm.trans hhead
    refine ((moves_advance_next (by simp)).bind fun _ => .test (M := Barred) ?_ ?_ ?_) s r s' hs
    · rintro s r s' ⟨⟨b, hb⟩ | hnext, hhead⟩ hrun
      · rw [hb] at hhead
        cases hhead
      · exact moves_advance_next (by simp) s r s' hnext hrun
    · exact moves_localFunction_nowhere n
    · rintro s r s' ⟨hstray | hnext, hhead⟩ hrun
      · exact moves_localStmt_nowhere n s r s' hstray.barred hrun
      · exact absurd hnext.head hhead

theorem not_completes_misnamed {s : State} (h : Misnamed s.tokens) : ¬ Completes s := by
  rcases h with ⟨b, hb⟩ | hlocal
  · exact not_completes_of_head (by rw [hb]; rfl) (by rw [hb]; simp) (by rw [hb]; simp)
  · have hhead : headToken s.tokens = .word .kLocal := hlocal.head
    intro hcomp
    rcases hcomp.cases with ⟨heof, -⟩ | ⟨hret, -⟩ | ⟨-, -, n, ss, s', hrun, -⟩
    · exact absurd (hhead.symm.trans heof) (by simp)
    · exact absurd (hhead.symm.trans hret) (by simp)
    · exact (moves_local_nowhere n).nested s ss s' hlocal hrun

/-! ## Programs as text -/

/-- The state in which the statements of a program are read. -/
def entry (source : Bytes) (tokens : List Lexeme) : State :=
  ⟨tokens, none, 1, [{ mainScope with blocks := [⟨false, 0, [], [], false⟩] }], 0, source⟩

theorem outline_entry (source : Bytes) (tokens : List Lexeme) :
    outline (entry source tokens).funcs = ([], [[0]]) := rfl

theorem check_isOk_iff {s : State} {t : Token} {r : Unit × State} :
    (check t).run s = .ok r ↔ headToken s.tokens = t ∧ r = ((), s) := by
  rw [check, run_bind, run_currentToken]
  change StateT.run (if headToken s.tokens ≠ t then _ else _) s = _ ↔ _
  by_cases ht : headToken s.tokens = t
  · rw [if_neg (fun h => h ht)]
    exact ⟨fun h => ⟨ht, (Except.ok.inj h).symm⟩, fun h => h.2 ▸ rfl⟩
  · rw [if_pos ht]
    constructor
    · rintro ⟨⟩
    · exact fun h => absurd h.1 ht

/-- Reading a program is reading its statements up to the end. -/
theorem program_eq_ok_iff (fuel : Nat) (source : Bytes) (tokens : List Lexeme) (f : Func) :
    (∃ s, (program fuel).run ⟨tokens, none, 1, [mainScope], 0, source⟩ = .ok (f, s)) ↔
      ∃ body s', (statements fuel).run (entry source tokens) = .ok (body, s') ∧ headToken s'.tokens = .eof ∧
        escaping s'.funcs = [] ∧ f = .mk 0 true body 0 source := by
  have hentry : (program fuel).run ⟨tokens, none, 1, [mainScope], 0, source⟩ = (do
      let body ← statements fuel
      check .eof
      leaveBlock
      return .mk 0 true body 0 (← get).source : Parse Func).run (entry source tokens) := by
    rw [program, run_bind]
    change StateT.run (checkFailure tokens >>= _) _ = _
    rw [run_bind, run_checkFailure (reachable_none _)]
    rfl
  rw [hentry]
  constructor
  · rintro ⟨s₃, hrun⟩
    obtain ⟨body, s₁, hbody, hrun₁⟩ := run_bind_eq_ok hrun
    obtain ⟨_, s₂, hcheck, hrun₂⟩ := run_bind_eq_ok hrun₁
    obtain ⟨_, s₃, hleave, hpure⟩ := run_bind_eq_ok hrun₂
    obtain ⟨heof, hs⟩ := check_isOk_iff.1 hcheck
    obtain ⟨-, rfl⟩ := Prod.mk.inj hs
    have hsource : s₃.source = source :=
      (closed_sinks.leaveBlock _ _ _ hleave).2.1.trans ((sinks fuel).statements _ _ _ hbody).2.1
    cases hpure
    exact ⟨body, s₂, hbody, heof, (leaveBlock_isOk_iff s₂).1 ⟨_, hleave⟩, by rw [hsource]⟩
  · rintro ⟨body, s₁, hbody, heof, hescaping, rfl⟩
    obtain ⟨⟨_, s₂⟩, hleave⟩ := (leaveBlock_isOk_iff s₁).2 hescaping
    have hsource : s₂.source = source :=
      (closed_sinks.leaveBlock _ _ _ hleave).2.1.trans ((sinks fuel).statements _ _ _ hbody).2.1
    rw [run_bind, hbody]
    change ∃ s, StateT.run (check .eof >>= _) s₁ = _
    rw [run_bind, check_isOk_iff.2 ⟨heof, rfl⟩]
    change ∃ s, StateT.run (leaveBlock >>= _) s₁ = _
    rw [run_bind, hleave]
    exact ⟨s₂, by rw [← hsource]; rfl⟩

/-- The fuel that a whole program is read with suffices. -/
theorem yields_entry_iff (source : Bytes) (tokens : List Lexeme) (f : Func) :
    (∃ s, (program (20 * tokens.length + 40)).run ⟨tokens, none, 1, [mainScope], 0, source⟩ = .ok (f, s)) ↔
      ∃ body, Yields (entry source tokens) body ∧ f = .mk 0 true body 0 source := by
  rw [program_eq_ok_iff]
  constructor
  · rintro ⟨body, s', hbody, heof, hescaping, hf⟩
    exact ⟨body, ⟨_, s', hbody, heof, hescaping⟩, hf⟩
  rintro ⟨body, ⟨n, s', hbody, heof, hescaping⟩, hf⟩
  refine ⟨body, s', ?_, heof, hescaping, hf⟩
  obtain ⟨C, hC, -, hfail, -, -, -, hlocal⟩ := (grammar n).statements (entry source tokens) body s' trivial hbody
  have hC' : tokens = C ++ s'.tokens := hC
  have hthere := hlocal (20 * tokens.length + 40) s'.tokens none (by rw [hC', List.length_append]; omega) (.inl rfl)
    (reachable_none _)
  rwa [← hC, State.before_self rfl, State.before_self hfail] at hthere

/-- Tokens with an error behind them are no program. -/
theorem program_fails (fuel : Nat) (source : Bytes) {tokens : List Lexeme} (e : SyntaxError)
    (heof : ∀ l ∈ tokens, l.token ≠ .eof) (r : Func × State) :
    (program fuel).run ⟨tokens, some e, 1, [mainScope], 0, source⟩ ≠ .ok r := by
  intro hrun
  obtain ⟨_, s₀, hget, hrun⟩ := run_bind_eq_ok hrun
  cases hget
  obtain ⟨_, s₁, hcheck, hrun⟩ := run_bind_eq_ok hrun
  obtain ⟨hreach, rfl⟩ := reachable_of_checkFailure hcheck
  obtain ⟨_, s₂, henter, hrun⟩ := run_bind_eq_ok hrun
  cases henter
  obtain ⟨body, s₃, hbody, hrun⟩ := run_bind_eq_ok hrun
  obtain ⟨_, s₄, hend, -⟩ := run_bind_eq_ok hrun
  obtain ⟨hhead, -⟩ := check_isOk_iff.1 hend
  obtain ⟨C, hC, -, hfail, -, -, hr, -⟩ := (grammar fuel).statements _ body s₃ trivial hbody
  have hC' : tokens = C ++ s₃.tokens := hC
  have hreach₃ := hr hreach
  rcases hs₃ : s₃.tokens with _ | ⟨l, ts⟩
  · exact absurd (hfail.symm.trans (hreach₃ hs₃)) (by simp)
  · rw [hs₃] at hhead hC'
    exact heof l (by rw [hC']; simp) hhead

/-- The text can be parsed as a program. -/
def IsProgram (source text : Bytes) : Prop :=
  ∃ f, parse source text = .ok f

instance (source text : Bytes) : Decidable (IsProgram source text) :=
  match h : parse source text with
  | .ok f => isTrue ⟨f, h⟩
  | .error _ => isFalse (by simp [IsProgram, h])

/-- A text is parsed as the statements that its tokens yield. -/
theorem parse_eq_ok_iff (source text : Bytes) (f : Func) : parse source text = .ok f ↔
    (lex text).2 = none ∧ ∃ body, Yields (entry source (lex text).1) body ∧ f = .mk 0 true body 0 source := by
  have hparse : parse source text = ((program (20 * (lex text).1.length + 40)).run
      ⟨(lex text).1, (lex text).2, 1, [mainScope], 0, source⟩).map (·.1) := rfl
  have hrun : parse source text = .ok f ↔ ∃ s, (program (20 * (lex text).1.length + 40)).run
      ⟨(lex text).1, (lex text).2, 1, [mainScope], 0, source⟩ = .ok (f, s) := by
    rw [hparse]
    rcases (program (20 * (lex text).1.length + 40)).run ⟨(lex text).1, (lex text).2, 1, [mainScope], 0, source⟩ with
      e | ⟨f', s⟩
    · exact ⟨(by rintro ⟨⟩), (by rintro ⟨_, ⟨⟩⟩)⟩
    · exact ⟨(by rintro ⟨⟩; exact ⟨s, rfl⟩), (by rintro ⟨_, ⟨⟩⟩; rfl)⟩
  rw [hrun, ← yields_entry_iff, Lexer.lex_eq]
  rcases Lexer.lexed_cases 1 text with ⟨T, e, hlex, -, -⟩ | ⟨T, e, hlex, heof⟩
  · rw [hlex]
    exact ⟨fun h => ⟨rfl, h⟩, And.right⟩
  · rw [hlex]
    constructor
    · rintro ⟨s, hrun⟩
      exact absurd hrun (program_fails _ source e heof _)
    · rintro ⟨⟨⟩, -⟩

/-- A text is a program iff its tokens have no error and complete. -/
theorem isProgram_iff (source text : Bytes) :
    IsProgram source text ↔ (lex text).2 = none ∧ Completes (entry source (lex text).1) := by
  rw [IsProgram, completes_iff]
  simp only [parse_eq_ok_iff]
  constructor
  · rintro ⟨f, hf, body, h, -⟩
    exact ⟨hf, body, h⟩
  · rintro ⟨hf, body, h⟩
    exact ⟨_, hf, body, h, rfl⟩

end Scratchpad.Lua.Parser
