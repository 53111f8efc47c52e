import Scratchpad.Proofs.Lua.Parser.Continued

/-!
# Programs that stay programs behind `return`

Only a row of expressions may follow `return`, and of all statements only calls and assignments begin like one. What
stands before the first comma or equals sign is read in the same way in both, but no row of expressions ends at an
equals sign. Main statement: a program that is still one behind `return` is empty or one call, with at most one
semicolon (`eitherWay_of_yields`).
-/

namespace Scratchpad.Lua.Parser

/-- A token that can begin a variable, an index or a call. -/
def beginsPlace : Token → Bool
  | .name _ | .sym .lparen => true
  | _ => false

theorem beginsPlace_cases {t : Token} (h : beginsPlace t = true) : (∃ w, t = .name w) ∨ t = .sym .lparen := by
  unfold beginsPlace at h
  split at h
  · exact .inl ⟨_, rfl⟩
  · exact .inr rfl
  · cases h

/-! ## Readers at different depths -/

/-- What a reader does does not depend on the depth of nesting, nor on the fuel. -/
theorem Reads.agree_level {α : Type} {n m k b d u : Nat} {S : Token → Prop} {p : Nat → Parse α} {s s₁ s₂ : State}
    {r₁ r₂ : α} (h : ∀ n, Reads n S Any k b p) (hsinks : ∀ n, Sinks (p n)) (hf : s.failure = none)
    (hrun₁ : (p n).run (s.atLevel d) = .ok (r₁, s₁)) (hrun₂ : (p m).run (s.atLevel u) = .ok (r₂, s₂)) :
    r₁ = r₂ ∧ s₁ = s₂.atLevel d := by
  obtain ⟨hlevel, -, hlow₁⟩ := hsinks n _ _ _ hrun₁
  obtain ⟨-, -, hlow₂⟩ := hsinks m _ _ _ hrun₂
  have hlevel : s₁.level = d := hlevel
  obtain ⟨hr, hs⟩ := (h n).agree (s := s.atLevel (min d u)) (h m) trivial trivial hf
    (hlow₁ _ (Nat.min_le_left d u)) (hlow₂ _ (Nat.min_le_right d u))
  refine ⟨hr, ?_⟩
  calc s₁ = (s₁.atLevel (min d u)).atLevel d := by rw [State.atLevel_atLevel, ← hlevel, State.atLevel_self]
    _ = s₂.atLevel d := by rw [hs, State.atLevel_atLevel]

/-- Going on does not depend on the depth of nesting. -/
theorem advance_atLevel {s s₁ : State} {r : Unit} (hs : headToken s.tokens ≠ .eof) (h : advance.run s = .ok (r, s₁))
    (d : Nat) : advance.run (s.atLevel d) = .ok ((), s₁.atLevel d) := by
  obtain ⟨l, ts, htokens, hl, hreach, rfl⟩ := advance_eq_ok hs h
  exact run_advance htokens hl hreach

/-! ## Statements that begin like expressions -/

section Place

variable {n : Nat} {s s' : State}

theorem suffixed_of_primary {e full : Expr} {name? : Option Bytes} {s₁ s₂ : State}
    (h : (primary n).run s = .ok ((e, name?), s₁)) (h' : (suffixes n e).run s₁ = .ok (full, s₂)) :
    (suffixed (n + 1)).run s = .ok (full, s₂) := by
  rw [suffixed, run_bind, h]
  exact h'

theorem statement_eq_exprStmt (hhead : beginsPlace (headToken s.tokens) = true) (n : Nat) :
    (statement (n + 1)).run s = (exprStmt n).run s := by
  rcases hs : s.tokens with _ | ⟨l, ts⟩
  · rw [hs] at hhead
    cases hhead
  · rw [statement, run_bind, run_currentLine_cons hs]
    change StateT.run (currentToken >>= _) s = _
    rw [run_bind, run_currentToken]
    rcases beginsPlace_cases hhead with ⟨w, hw⟩ | hparen
    · rw [hw]
      rfl
    · rw [hparen]
      rfl

/-- A statement that begins like an expression is read as a variable, index or call first. -/
theorem statement_place {ss : List Stmt} (hhead : beginsPlace (headToken s.tokens) = true)
    (h : (statement n).run s = .ok (ss, s')) : ∃ m full s₁, (suffixed m).run s = .ok (full, s₁) ∧
      ((∃ targets values, ss = [.assign targets values] ∧ ∃ k name? r, (assignment k full name?).run s₁ = .ok r) ∨
        headToken s₁.tokens ≠ .sym .comma ∧ headToken s₁.tokens ≠ .sym .assign ∧ full.isCall = true ∧
          ss = [.call full] ∧ s' = s₁) := by
  rcases n with _ | _ | n
  · rw [statement] at h
    cases h
  · rw [statement_eq_exprStmt hhead, exprStmt] at h
    cases h
  rw [statement_eq_exprStmt hhead, exprStmt] at h
  obtain ⟨⟨e, name?⟩, s₁, hprimary, h⟩ := run_bind_eq_ok h
  obtain ⟨full, s₂, hsuffixes, h⟩ := run_bind_eq_ok h
  refine ⟨n + 1, full, s₂, suffixed_of_primary hprimary hsuffixes, ?_⟩
  rw [run_bind, run_currentToken] at h
  change StateT.run (if (headToken s₂.tokens = .sym .assign || headToken s₂.tokens = .sym .comma) = true then _ else _)
    s₂ = _ at h
  split at h
  · obtain ⟨⟨targets, values⟩, s₃, hassign, h⟩ := run_bind_eq_ok h
    obtain ⟨line, s₄, -, hpure⟩ := run_bind_eq_ok h
    cases hpure
    exact .inl ⟨_, _, rfl, _, _, _, hassign⟩
  · rename_i hhead₂
    split at h
    · rename_i hcall
      cases h
      exact .inr ⟨fun hcomma => hhead₂ (by simp [hcomma]), fun hassign => hhead₂ (by simp [hassign]), hcall, rfl, rfl⟩
    · cases h

theorem testNext_eq_ok {t : Token} {b : Bool} (h : (testNext t).run s = .ok (b, s')) :
    (b = true ∧ headToken s.tokens = t ∧ advance.run s = .ok ((), s')) ∨
      b = false ∧ headToken s.tokens ≠ t ∧ s' = s := by
  rw [testNext, run_bind, run_currentToken] at h
  change StateT.run (if headToken s.tokens = t then _ else _) s = _ at h
  split at h
  · rename_i ht
    obtain ⟨_, s₁, hadvance, hpure⟩ := run_bind_eq_ok h
    cases hpure
    exact .inl ⟨rfl, ht, hadvance⟩
  · rename_i ht
    cases h
    exact .inr ⟨rfl, ht, rfl⟩

theorem beginsPlace_of_primary {r : Expr × Option Bytes} (h : (primary n).run s = .ok (r, s')) :
    beginsPlace (headToken s.tokens) = true := by
  by_contra hplace
  refine moves_primary_nowhere n s r s' ⟨fun w hw => hplace ?_, fun hparen => hplace ?_⟩ h
  · rw [hw]
    rfl
  · rw [hparen]
    rfl

theorem run_of_unless {α : Type} {c : Prop} [Decidable c] {message : Bytes} {q : PUnit → Parse α} {r : α × State}
    (h : (if c then failNear message >>= q else q ⟨⟩ : Parse α).run s = .ok r) : (q ⟨⟩).run s = .ok r := by
  split at h
  · cases h
  · exact h

/-- What stands behind a target of an assignment. -/
theorem assignment_cases {target : Expr} {name? : Option Bytes} {r : (List Expr × List Expr) × State}
    (h : (assignment (n + 1) target name?).run s = .ok r) : headToken s.tokens = .sym .assign ∨
      headToken s.tokens = .sym .comma ∧ ∃ s₁ m full s₂ next? r', advance.run s = .ok ((), s₁) ∧
        beginsPlace (headToken s₁.tokens) = true ∧ (suffixed m).run (s₁.atLevel (s₁.level + 1)) = .ok (full, s₂) ∧
          (assignment n full next?).run s₂ = .ok r' := by
  -- behind a target that may be assigned to
  obtain ⟨⟨r, s'⟩, h⟩ : ∃ r, (do
      checkAssignable name? target
      if ← testSym .comma then nested do
        let first ← primary n
        let full ← suffixes n first.1
        let rest ← assignment n full (if (constant? full).isSome then first.2 else none)
        return (target :: rest.1, rest.2)
      else
        expectSym .assign
        return ([target], ← exprList n) : Parse (List Expr × List Expr)).run s = .ok r := by
    rw [assignment.eq_def] at h
    exact ⟨r, run_of_unless h⟩
  obtain ⟨_, s₀, hcheck, hrun₀⟩ := run_bind_eq_ok h
  obtain rfl := looks_checkAssignable _ _ _ _ _ hcheck
  obtain ⟨b, s₁, htest, hrun₁⟩ := run_bind_eq_ok hrun₀
  rcases testNext_eq_ok htest with ⟨rfl, hcomma, hadvance⟩ | ⟨rfl, -, rfl⟩
  · obtain ⟨_, hinner, -⟩ := nested_eq_ok hrun₁
    obtain ⟨⟨e, next?⟩, s₂, hprimary, hrun₂⟩ := run_bind_eq_ok hinner
    obtain ⟨full, s₃, hsuffixes, hrun₃⟩ := run_bind_eq_ok hrun₂
    obtain ⟨r', s₄, hassignment, -⟩ := run_bind_eq_ok hrun₃
    have hhead := beginsPlace_of_primary (s := s₁.atLevel (s₁.level + 1)) hprimary
    exact .inr ⟨hcomma, s₁, n + 1, full, s₃, _, _, hadvance, hhead,
      suffixed_of_primary hprimary hsuffixes, hassignment⟩
  · obtain ⟨_, s₂, hexpect, -⟩ := run_bind_eq_ok hrun₁
    obtain ⟨_, s₃, hassign, -⟩ := run_bind_eq_ok (p := check (.sym .assign)) (q := fun _ => advance) hexpect
    exact .inl (check_isOk_iff.1 hassign).1

theorem suffixed_of_simpleExpr {e : Expr} (hhead : beginsPlace (headToken s.tokens) = true)
    (h : (simpleExpr n).run s = .ok (e, s')) : ∃ m, (suffixed m).run s = .ok (e, s') := by
  cases n with
  | zero =>
    rw [simpleExpr] at h
    cases h
  | succ n =>
    rw [simpleExpr, run_bind, run_currentToken] at h
    refine ⟨n, ?_⟩
    rcases beginsPlace_cases hhead with ⟨w, hw⟩ | hparen
    · rw [hw] at h
      exact h
    · rw [hparen] at h
      exact h

theorem operators_stop {limit : Nat} {e e' : Expr} (hhead : infixOf (headToken s.tokens) = none)
    (h : (operators n limit e).run s = .ok (e', s')) : e' = e ∧ s' = s := by
  rcases n with _ | n
  · rw [operators] at h
    cases h
  rw [operators, run_bind, run_currentToken] at h
  simp only [Except.bind, hhead] at h
  cases h
  exact ⟨rfl, rfl⟩

theorem subExpr_place {limit : Nat} {e : Expr} (hhead : beginsPlace (headToken s.tokens) = true)
    (h : (subExpr n limit).run s = .ok (e, s')) : ∃ m full s₁,
      (suffixed m).run (s.atLevel (s.level + 1)) = .ok (full, s₁) ∧
        (infixOf (headToken s₁.tokens) = none → e = full ∧ s' = s₁.atLevel (s₁.level - 1)) := by
  have hprefix : prefixOf (headToken s.tokens) = none := by
    rcases beginsPlace_cases hhead with ⟨w, hw⟩ | hparen
    · rw [hw]
      rfl
    · rw [hparen]
      rfl
  cases n with
  | zero =>
    rw [subExpr] at h
    cases h
  | succ n =>
    rw [subExpr] at h
    obtain ⟨s₂, hinner, rfl⟩ := nested_eq_ok h
    rw [run_bind, run_currentToken] at hinner
    simp only [Except.bind, hprefix] at hinner
    obtain ⟨full, s₁, hsimple, hoperators⟩ := run_bind_eq_ok hinner
    obtain ⟨m, hsuffixed⟩ := suffixed_of_simpleExpr (s := s.atLevel (s.level + 1)) hhead hsimple
    refine ⟨m, full, s₁, hsuffixed, fun hinfix => ?_⟩
    obtain ⟨rfl, rfl⟩ := operators_stop hinfix hoperators
    exact ⟨rfl, rfl⟩

/-- What a row of expressions does behind a variable, index or call. -/
theorem exprList_place {values : List Expr} (hhead : beginsPlace (headToken s.tokens) = true)
    (h : (exprList n).run s = .ok (values, s')) : ∃ m full s₁,
      (suffixed m).run (s.atLevel (s.level + 1)) = .ok (full, s₁) ∧ (infixOf (headToken s₁.tokens) = none →
        (headToken s₁.tokens ≠ .sym .comma ∧ values = [full] ∧ s' = s₁.atLevel (s₁.level - 1)) ∨
        headToken s₁.tokens = .sym .comma ∧ ∃ s₂ k r, advance.run (s₁.atLevel (s₁.level - 1)) = .ok ((), s₂) ∧
          (exprList k).run s₂ = .ok (r, s')) := by
  rcases n with _ | n
  · rw [exprList] at h
    cases h
  rw [exprList] at h
  obtain ⟨e, s₂, hsub, h⟩ := run_bind_eq_ok h
  obtain ⟨m, full, s₁, hsuffixed, hstop⟩ := subExpr_place hhead hsub
  refine ⟨m, full, s₁, hsuffixed, fun hinfix => ?_⟩
  obtain ⟨rfl, rfl⟩ := hstop hinfix
  obtain ⟨b, s₃, htest, hrun₃⟩ := run_bind_eq_ok h
  rcases testNext_eq_ok htest with ⟨rfl, hcomma, hadvance⟩ | ⟨rfl, hcomma, rfl⟩
  · obtain ⟨line, s₄, hline, hrun₄⟩ := run_bind_eq_ok hrun₃
    obtain rfl := looks_lastLine _ _ _ hline
    obtain ⟨r, s₅, hmore, hpure⟩ := run_bind_eq_ok hrun₄
    cases hpure
    exact .inr ⟨hcomma, s₄, n, r, hadvance, hmore⟩
  · cases hrun₃
    exact .inl ⟨hcomma, rfl, rfl⟩

/-- A row of expressions that begins like an assignment ends at its equals sign. -/
theorem exprList_assignment : ∀ (n : Nat) {s s₁ s' : State} {m k d : Nat} {full : Expr} {name? : Option Bytes}
    {values : List Expr} {r : (List Expr × List Expr) × State}, beginsPlace (headToken s.tokens) = true →
    s.failure = none → (suffixed m).run s = .ok (full, s₁) → (assignment n full name?).run s₁ = .ok r →
    (exprList k).run (s.atLevel d) = .ok (values, s') → headToken s'.tokens = .sym .assign
  | 0, _, _, _, _, _, _, _, _, _, _, _, _, _, hassign, _ => by
    rw [assignment] at hassign
    cases hassign
  | n + 1, s, s₁, s', m, k, d, full, name?, values, r, hhead, hf, hsuffixed, hassign, hlist => by
    obtain ⟨m', full', s₂, hsuffixed', hrest⟩ := exprList_place (s := s.atLevel d) hhead hlist
    obtain ⟨-, rfl⟩ := Reads.agree_level (d := d + 1) (u := s.level) (fun n => (grammar n).suffixed)
      (fun n => (sinks n).suffixed) hf hsuffixed' hsuffixed
    rcases assignment_cases hassign with hequals | ⟨hcomma, s₃, m₂, full₂, s₄, next?, r', hadvance, hhead₂, hsuffixed₂,
      hassign₂⟩
    · rcases hrest (congrArg infixOf hequals) with ⟨-, -, rfl⟩ | ⟨hcomma, -⟩
      · exact hequals
      · cases hequals.symm.trans hcomma
    · rcases hrest (congrArg infixOf hcomma) with ⟨hne, -⟩ | ⟨-, s₅, k', r₂, hadvance', hlist'⟩
      · exact absurd hcomma hne
      · have hne : headToken s₁.tokens ≠ .eof := by
          rw [hcomma]
          simp
        have hthere := advance_atLevel hne hadvance d
        obtain rfl : s₃.atLevel d = s₅ := congrArg Prod.snd (Except.ok.inj (hthere.symm.trans hadvance'))
        obtain ⟨_, -, -, hf₁, -⟩ := (grammar m).suffixed s full s₁ trivial hsuffixed
        obtain ⟨l, ts, -, -, -, rfl⟩ := advance_eq_ok hne hadvance
        exact exprList_assignment n (s := (s₁.behind l ts).atLevel (s₁.level + 1)) hhead₂ (hf₁.trans hf) hsuffixed₂
          hassign₂ hlist'

end Place

/-! ## Functions -/

theorem moves_funcBody_nowhere (n : Nat) (isMethod : Bool) (line : Nat) :
    Moves (headToken · ≠ .sym .lparen) Nowhere (funcBody n isMethod line) := by
  have hparen : Moves (headToken · ≠ .sym .lparen) Nowhere (expectSym .lparen) :=
    moves_expect fun _ _ _ hs => absurd hs.2 hs.1
  cases n with
  | zero => rw [funcBody]; exact .failNear
  | succ n =>
    rw [funcBody]
    refine .silent (silent_pushFunc _) fun _ => .silent (silent_enterBlock _) fun _ => ?_
    exact hparen.stop

theorem moves_functionStmt_nowhere (n line : Nat) :
    Moves (headToken · = .sym .lparen) Nowhere (functionStmt n line) := by
  have hname : Moves (headToken · = .sym .lparen) Nowhere expectName :=
    moves_expectName_unnamed.mono (fun ts hts w => by rw [hts]; simp) fun _ h => h
  cases n with
  | zero => rw [functionStmt]; exact .failNear
  | succ n =>
    rw [functionStmt]
    exact hname.stop

/-- A function without a name is no statement. -/
theorem moves_statement_function (n : Nat) :
    Moves (Next (· = .word .kFunction) (headToken · = .sym .lparen)) Nowhere (statement n) := by
  cases n with
  | zero => rw [statement]; exact .failNear
  | succ n =>
    rw [statement]
    refine .line fun line => .peek fun t => ?_
    rintro s r s' ⟨hs, hhead⟩
    obtain rfl := hs.head.symm.trans hhead
    exact ((moves_advance_next (by simp)).bind fun _ => (moves_functionStmt_nowhere n line).stop) s r s' hs

/-- A function with a name is no expression. -/
theorem moves_exprList_function (n : Nat) :
    Moves (Next (· = .word .kFunction) (headToken · ≠ .sym .lparen)) Nowhere (exprList n) := by
  have hsimple : ∀ n, Moves (Next (· = .word .kFunction) (headToken · ≠ .sym .lparen)) Nowhere (simpleExpr n) := by
    intro n
    cases n with
    | zero => rw [simpleExpr]; exact .failNear
    | succ n =>
      rw [simpleExpr]
      refine .peek fun t => ?_
      rintro s r s' ⟨hs, hhead⟩
      obtain rfl := hs.head.symm.trans hhead
      refine (Moves.line fun line => (moves_advance_next (by simp)).bind fun _ => ?_) s r s' hs
      exact (moves_funcBody_nowhere n false line).stop
  have hsub : ∀ n, Moves (Next (· = .word .kFunction) (headToken · ≠ .sym .lparen)) Nowhere (subExpr n 0) := by
    intro n
    cases n with
    | zero => rw [subExpr]; exact .failNear
    | succ n =>
      rw [subExpr]
      refine .nested (.peek fun t => ?_)
      rintro s r s' ⟨hs, hhead⟩
      obtain rfl := hs.head.symm.trans hhead
      exact ((hsimple n).stop) s r s' hs
  cases n with
  | zero => rw [exprList]; exact .failNear
  | succ n =>
    rw [exprList]
    exact (hsub n).stop

/-! ## The end of what is returned -/

/-- Nothing is left of a program, or one semicolon. -/
def Trails (ts : List Lexeme) : Prop :=
  ts.map Lexeme.token = [.eof] ∨ ts.map Lexeme.token = [.sym .semi, .eof]

/-- The values are that of one call. -/
def isCallAlone : List Expr → Bool
  | [e] => e.isCall
  | _ => false

/-- What follows the returned values. -/
def returnEnd (values : List Expr) : Parse Stmt := do
  let line ← lastLine
  let _ ← testSym .semi
  let inside := ((← func).blocks.head?.map BlockScope.insideClose).getD false
  return .ret (values.map (Expr.settle line)) (!inside && isCallAlone values)

section Ends

variable {s s' : State} {n : Nat} {r : Stmt} {body : List Stmt} {values : List Expr} {T : List Lexeme} {e : Lexeme}

theorem returned_cases (h : (returned n).run s = .ok (r, s')) :
    (endsBlock true (headToken s.tokens) = true ∨ headToken s.tokens = .sym .semi) ∧
        (returnEnd []).run s = .ok (r, s') ∨
      headToken s.tokens ≠ .sym .semi ∧ ∃ values s₁, (exprList n).run s = .ok (values, s₁) ∧
        (returnEnd values).run s₁ = .ok (r, s') := by
  rw [returned, run_bind, run_currentToken] at h
  change StateT.run (if (endsBlock true (headToken s.tokens) || headToken s.tokens = .sym .semi) = true then _ else _)
    s = _ at h
  split at h
  · rename_i hends
    exact .inl ⟨by simpa using hends, h⟩
  · rename_i hends
    obtain ⟨values, s₁, hlist, hend⟩ := run_bind_eq_ok h
    exact .inr ⟨fun hsemi => hends (by simp [hsemi]), values, s₁, hlist, hend⟩

/-- Behind the returned values, at most a semicolon is read. -/
theorem returnEnd_eq_ok (h : (returnEnd values).run s = .ok (r, s')) :
    (∃ b, (testSym .semi).run s = .ok (b, s')) ∧ r = .ret (values.map (Expr.settle s.last))
      (!((s'.funcs.headD mainScope).blocks.head?.map BlockScope.insideClose).getD false && isCallAlone values) := by
  obtain ⟨line, s₁, hline, hrun₁⟩ := run_bind_eq_ok h
  cases hline
  obtain ⟨b, s₂, htest, hrun₂⟩ := run_bind_eq_ok hrun₁
  obtain ⟨fs, s₃, hfunc, hpure⟩ := run_bind_eq_ok hrun₂
  cases hfunc
  cases hpure
  exact ⟨⟨b, htest⟩, rfl⟩

theorem eq_nil_of_eof (heof : ∀ l ∈ T, l.token ≠ .eof) (hhead : headToken (T ++ [e]) = .eof) : T = [] := by
  cases T with
  | nil => rfl
  | cons l T => exact absurd hhead (heof l List.mem_cons_self)

/-- Behind the returned values of a program nothing is left, or one semicolon. -/
theorem trails_of_returnEnd (hs : s.tokens = T ++ [e]) (heof : ∀ l ∈ T, l.token ≠ .eof) (he : e.token = .eof)
    (h : (returnEnd values).run s = .ok (r, s')) (hend : headToken s'.tokens = .eof) : Trails s.tokens := by
  obtain ⟨b, htest⟩ := (returnEnd_eq_ok h).1
  rcases testNext_eq_ok htest with ⟨-, hsemi, hadvance⟩ | ⟨-, -, rfl⟩
  · obtain ⟨l, ts, hts, -, -, rfl⟩ := advance_eq_ok (by rw [hsemi]; simp) hadvance
    cases T with
    | nil =>
      rw [hs] at hsemi
      cases he.symm.trans hsemi
    | cons l' T =>
      obtain ⟨rfl, rfl⟩ := List.cons.inj (hs.symm.trans hts)
      obtain rfl := eq_nil_of_eof (fun l hl => heof l (List.mem_cons_of_mem _ hl)) hend
      rw [hts] at hsemi
      exact .inr (by rw [hts]; simp [he, show l'.token = _ from hsemi])
  · rw [hs] at hend ⊢
    obtain rfl := eq_nil_of_eof heof hend
    exact .inl (by simp [he])

/-- A call that is returned by the main function replaces it. -/
theorem returnEnd_value (hfuncs : (s.funcs.headD mainScope).blocks.head?.map BlockScope.insideClose = some false)
    (h : (returnEnd values).run s = .ok (r, s')) :
    r = .ret (values.map (Expr.settle s.last)) (isCallAlone values) := by
  obtain ⟨⟨b, htest⟩, hr⟩ := returnEnd_eq_ok h
  have hkeeps : Keeps id (testSym .semi) := keeps_testNext _
  have hkeep : s'.funcs = s.funcs := hkeeps _ _ _ htest
  rw [hr, hkeep, hfuncs]
  rfl

/-- Nothing is left of a program at its end, or behind one semicolon. -/
theorem Yields.trailing (hf : s.failure = none) (h : Yields s body) (htrails : Trails s.tokens) : body = [] := by
  have hend : ∀ {s : State} {body : List Stmt}, headToken s.tokens = .eof → Yields s body → body = [] := by
    intro s body heof h
    rcases h.cases with ⟨-, hbody, -⟩ | ⟨hret, -⟩ | ⟨hends, -⟩
    · exact hbody
    · cases heof.symm.trans hret
    · rw [heof] at hends
      cases hends
  rcases htrails with heof | hsemi
  · obtain ⟨e, hs, he⟩ := List.map_eq_singleton_iff.1 heof
    exact hend (by rw [hs]; exact he) h
  · obtain ⟨l, ts, hs, hl, hts⟩ := List.map_eq_cons_iff.1 hsemi
    obtain ⟨e, rfl, he⟩ := List.map_eq_singleton_iff.1 hts
    have hhead : headToken s.tokens = .sym .semi := by rw [hs]; exact hl
    rcases h.cases with ⟨heof, -⟩ | ⟨hret, -⟩ | ⟨-, -, n, ss, s', more, hrun, rfl, h'⟩
    · cases hhead.symm.trans heof
    · cases hhead.symm.trans hret
    · obtain ⟨s₁, hstatement, rfl⟩ := nested_eq_ok hrun
      cases n with
      | zero =>
        rw [statement] at hstatement
        cases hstatement
      | succ n =>
        cases (run_semi (s := s.atLevel (s.level + 1)) hs hl hf n).symm.trans hstatement
        refine hend ?_ h'
        exact he

end Ends

/-! ## Both ways to read a program -/

/-- The statements of a program with the tokens `ts`, alone and behind `return`: none, or one call. -/
inductive EitherWay (source : Bytes) (ts : List Lexeme) : List Stmt → List Stmt → Prop where
  | empty (h : Trails ts) : EitherWay source ts [] [.ret [] false]
  | call {n : Nat} {e : Expr} {s : State} (hcall : e.isCall = true)
      (hrun : (suffixed n).run (entry source ts) = .ok (e, s)) (hrest : Trails s.tokens) : EitherWay source ts [.call e] [.ret [e] true]

section EitherWay

variable {n k : Nat} {source : Bytes} {T : List Lexeme} {e l : Lexeme} {body body' : List Stmt} {t : Token}

theorem infixOf_begins {i : Infix × Nat × Nat} (h : infixOf t = some i) :
    beginsStatement t = false ∧ t ≠ .eof ∧ t ≠ .word .kReturn := by
  unfold infixOf at h
  split at h
  all_goals first
    | exact ⟨rfl, by simp, by simp⟩
    | cases h

theorem begins_both (hstatement : beginsStatement t = true) (hexpr : beginsExpr t = true) :
    beginsPlace t = true ∨ t = .word .kFunction := by
  unfold beginsStatement at hstatement
  split at hstatement
  all_goals first
    | exact .inl rfl
    | exact .inr rfl
    | cases hexpr
    | cases hstatement

theorem settle_of_isCall {e : Expr} (h : e.isCall = true) (line : Nat) : e.settle line = e := by
  cases e with
  | index => cases h
  | _ => rfl

/-- The state in which what follows `return` is read. -/
abbrev inside (source : Bytes) (ts : List Lexeme) : State :=
  (entry source ts).atLevel 1

/-- No statement begins with an operator. -/
theorem Yields.infixOf_eq_none {s : State} {body : List Stmt} (h : Yields s body) :
    infixOf (headToken s.tokens) = none := by
  cases hi : infixOf (headToken s.tokens) with
  | none => rfl
  | some i =>
    obtain ⟨hbegins, hne, hret⟩ := infixOf_begins hi
    exact absurd (completes_iff.2 ⟨body, h⟩) (not_completes_of_head hbegins hne hret)

/-- A program that begins like an expression is one call if it can be returned. -/
theorem eitherWay_of_place {ss more : List Stmt} {s s₁ s₂ : State} {values : List Expr} {r : Stmt}
    (heof : ∀ l ∈ T, l.token ≠ .eof) (he : e.token = .eof) (hplace : beginsPlace (headToken (T ++ [e])) = true)
    (hstatement : (statement n).run (inside source (T ++ [e])) = .ok (ss, s))
    (hmore : Yields (s.atLevel (s.level - 1)) more)
    (hlist : (exprList k).run (inside source (T ++ [e])) = .ok (values, s₁))
    (hreturn : (returnEnd values).run s₁ = .ok (r, s₂)) (hend : headToken s₂.tokens = .eof) :
    EitherWay source (T ++ [e]) (ss ++ more) [r] := by
  obtain ⟨m, full, s₃, hsuffixed, hassign | ⟨hcomma, hequals, hcall, rfl, rfl⟩⟩ := statement_place hplace hstatement
  · -- an assignment is not returned
    obtain ⟨-, -, -, k', name?, r', hassign⟩ := hassign
    have hhead := exprList_assignment k' (d := 1) hplace rfl hsuffixed hassign hlist
    obtain ⟨⟨b, htest⟩, -⟩ := returnEnd_eq_ok hreturn
    rcases testNext_eq_ok htest with ⟨-, hsemi, -⟩ | ⟨-, -, rfl⟩
    · cases hhead.symm.trans hsemi
    · cases hhead.symm.trans hend
  · obtain ⟨m', full', s₄, hsuffixed', hrest⟩ := exprList_place hplace hlist
    obtain ⟨rfl, rfl⟩ := Reads.agree_level (d := 2) (u := 1) (fun n => (grammar n).suffixed)
      (fun n => (sinks n).suffixed) (s := entry source (T ++ [e])) rfl hsuffixed' hsuffixed
    rcases hrest hmore.infixOf_eq_none with ⟨-, rfl, rfl⟩ | ⟨hcomma', -⟩
    · obtain ⟨C, hC, -, hf, -, hCeof, -⟩ := (grammar m).suffixed _ _ s trivial hsuffixed
      obtain ⟨T', rfl, hs⟩ := append_eq_before_eof (E := [e]) hC hCeof he
      have htrails : Trails s.tokens :=
        trails_of_returnEnd (s := (s.atLevel 2).atLevel 1) hs (fun l hl => heof l (List.mem_append_right C hl)) he
          hreturn hend
      have hfuncs : s.funcs = (inside source (C ++ T' ++ [e])).funcs := (scoping m).suffixed _ _ s hsuffixed
      have hblocks : (s.funcs.headD mainScope).blocks.head?.map BlockScope.insideClose = some false := by
        rw [hfuncs]
        rfl
      obtain rfl := returnEnd_value (s := (s.atLevel 2).atLevel 1) hblocks hreturn
      obtain rfl := Yields.trailing (s := s.atLevel (s.level - 1)) hf hmore htrails
      have hrun := ((sinks m).suffixed _ _ s hsuffixed).2.2 0 (Nat.zero_le 1)
      simp only [List.map_cons, List.map_nil, settle_of_isCall hcall, isCallAlone, hcall]
      exact .call hcall hrun htrails
    · exact absurd hcomma' hcomma

/-- A program that is still one behind `return` is empty or one call. -/
theorem eitherWay_of_yields (hl : l.token = .word .kReturn) (hline : l.line = 1) (heof : ∀ l ∈ T, l.token ≠ .eof)
    (he : e.token = .eof) (h : Yields (entry source (T ++ [e])) body)
    (h' : Yields (entry source (l :: (T ++ [e]))) body') : EitherWay source (T ++ [e]) body body' := by
  obtain ⟨k, r, s', hreturned, hend, rfl⟩ := returned_of_yields (s := entry source []) hl h'
  have hreturned : (returned k).run (inside source (T ++ [e])) = .ok (r, s') := by
    rw [← hreturned, hline]
    rfl
  have hblocks : ((inside source (T ++ [e])).funcs.headD mainScope).blocks.head?.map BlockScope.insideClose =
      some false := rfl
  rcases returned_cases hreturned with ⟨hends, hreturn⟩ | ⟨hsemi, values, s₁, hlist, hreturn⟩
  · have htrails := trails_of_returnEnd rfl heof he hreturn hend
    obtain rfl := returnEnd_value hblocks hreturn
    obtain rfl := h.trailing rfl htrails
    exact .empty htrails
  have hexpr : beginsExpr (headToken (T ++ [e])) = true := by
    by_contra hexpr
    exact moves_exprList_nowhere k _ _ _ (Bool.eq_false_iff.2 hexpr) hlist
  rcases h.cases with ⟨hend', -⟩ | ⟨hret, -⟩ | ⟨hends, hret, n, ss, s, more, hrun, rfl, hmore⟩
  · have hhead : headToken (T ++ [e]) = .eof := hend'
    rw [hhead] at hexpr
    cases hexpr
  · have hhead : headToken (T ++ [e]) = .word .kReturn := hret
    rw [hhead] at hexpr
    cases hexpr
  obtain ⟨s₂, hstatement, rfl⟩ := nested_eq_ok hrun
  have hbegins : beginsStatement (headToken (T ++ [e])) = true := by
    by_contra hbegins
    exact moves_statement_nowhere n _ _ _ (Bool.eq_false_iff.2 hbegins) hstatement
  rcases begins_both hbegins hexpr with hplace | hfunction
  · exact eitherWay_of_place heof he hplace hstatement hmore hlist hreturn hend
  · -- a function needs a name in a statement and has none in an expression
    exfalso
    cases T with
    | nil => cases he.symm.trans hfunction
    | cons l' T =>
      by_cases hparen : headToken (T ++ [e]) = .sym .lparen
      · exact moves_statement_function n _ _ _ ⟨l', T ++ [e], rfl, hfunction, hparen⟩ hstatement
      · exact moves_exprList_function k _ _ _ ⟨l', T ++ [e], rfl, hfunction, hparen⟩ hlist

end EitherWay

end Scratchpad.Lua.Parser
