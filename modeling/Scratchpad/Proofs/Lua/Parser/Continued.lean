import Scratchpad.Proofs.Lua.Parser.Labels

/-!
# Programs that go on

Behind a program there may stand other tokens that complete it: an empty block, or lines that copy and return variables
(`Sequel`). What stands there does not decide whether the program is valid. Main statements: a valid program that one
sequel may follow may be followed by any other one (`completes_sequel`), and a program that is valid with lines behind it
is valid without them (`completes_alone`).
-/

namespace Scratchpad.Lua.Parser

/-! ## What follows `return` -/

/-- The values that are returned, and the semicolon behind them. -/
def returned (fuel : Nat) : Parse Stmt := do
  let t ← currentToken
  let values ← if endsBlock true t || t = .sym .semi then pure [] else exprList fuel
  let line ← lastLine
  let _ ← testSym .semi
  let inside := ((← func).blocks.head?.map BlockScope.insideClose).getD false
  let tail := !inside && match values with
    | [e] => e.isCall
    | _ => false
  return .ret (values.map (Expr.settle line)) tail

theorem returnStmt_succ (n : Nat) : returnStmt (n + 1) = advance >>= fun _ => returned n := by
  rw [returnStmt]
  rfl

/-- If something is returned, then it is read like an expression. -/
theorem reads_returned (n : Nat) : Reads n Inert (endsBlock true · = false) 1 5 returned := by
  have hend : ∀ values : List Expr, Reads n Inert Any 0 0 fun _ => do
      let line ← lastLine
      let _ ← testSym .semi
      let inside := ((← func).blocks.head?.map BlockScope.insideClose).getD false
      let tail := !inside && match values with
        | [e] => e.isCall
        | _ => false
      return Stmt.ret (values.map (Expr.settle line)) tail := fun values => by
    refine .silent_bind silent_lastLine fun line => (reads_testSym (P := Any) (b := 0) fun h => h).seq (by omega) fun _ => ?_
    exact .silent_bind silent_func fun fs => reads_pure _
  refine .peek (fun t ht => ?_) (by simp)
  by_cases hsemi : t = .sym .semi
  · subst hsemi
    refine .silent_bind (.pure _) fun values => .silent_bind silent_lastLine fun line => ?_
    refine .testYes (by simp) (fun _ h => h) (by decide) (.silent_bind silent_func fun fs => reads_pure _)
  · have hcond : (endsBlock true t || decide (t = .sym .semi)) = false := by
      rw [ht, decide_eq_false hsemi]
      rfl
    simp only [hcond]
    exact ((grammar n).exprList.seq (by omega) fun values => (hend values).last (by omega) (by omega))

/-- Nothing is returned at the end of a block. -/
theorem moves_returned_stay (n : Nat) {t : Token} (ht : endsBlock true t = true) :
    Moves (headToken · = t) (headToken · = t) (returned n) := by
  refine .peek fun u => ?_
  by_cases hu : u = t
  · subst hu
    simp only [ht, Bool.true_or, if_true]
    refine .silent (.pure _) fun values => .silent silent_lastLine fun _ => .test (M := Nowhere) ?_ ?_ ?_
    · intro s r s' hs
      refine absurd (hs.1.1.symm.trans hs.2) ?_
      rintro rfl
      cases ht
    · exact fun _ _ _ h => h.elim
    · exact .silent silent_func fun _ => (Moves.pure _).mono (fun _ hs => hs.1.1) fun _ h => h
  · exact fun s r s' hs => absurd (hs.2.symm.trans hs.1) hu

theorem moves_returned_do (n : Nat) : Moves (headToken · = .word .kDo) Nowhere (returned n) := by
  refine .peek fun t => ?_
  rintro s r s' ⟨hs, hhead⟩
  obtain rfl := hs.symm.trans hhead
  exact ((moves_exprList_nowhere n).stop) s r s' (congrArg beginsExpr hs)

/-! ## Rests of a program -/

/-- What is read before the end of the program is read of the program. -/
theorem append_eq_before_eof {T E C R : List Lexeme} (h : T ++ E = C ++ R) (hC : ∀ l ∈ C, l.token ≠ .eof)
    (hE : headToken E = .eof) : ∃ T', T = C ++ T' ∧ R = T' ++ E := by
  rcases List.append_eq_append_iff.1 h with ⟨D, rfl, rfl⟩ | ⟨D, rfl, rfl⟩
  · cases D with
    | nil => exact ⟨[], by simp, rfl⟩
    | cons l D => exact absurd hE (hC l (by simp))
  · exact ⟨D, rfl, rfl⟩

section Continued

variable {E A B T₀ : List Lexeme}

/-- A program that begins with `return` is what is returned. -/
theorem returned_of_yields {s : State} {l : Lexeme} {ts : List Lexeme} {body : List Stmt}
    (hl : l.token = .word .kReturn) (h : Yields (s.before (l :: ts) none) body) :
    ∃ n r s', (returned n).run (State.before { s with level := s.level + 1, last := l.line } ts none) = .ok (r, s') ∧
      headToken s'.tokens = .eof ∧ body = [r] := by
  have hhead : headToken (s.before (l :: ts) none).tokens = .word .kReturn := hl
  rcases h.cases with ⟨heof, -⟩ | ⟨-, n, r, s', hnested, hbody, heof, -⟩ | ⟨-, hret, -⟩
  · rw [hhead] at heof
    cases heof
  · obtain ⟨s₁, hrun, rfl⟩ := nested_eq_ok hnested
    cases n with
    | zero =>
      rw [returnStmt] at hrun
      cases hrun
    | succ n =>
      rw [returnStmt_succ, run_bind, run_advance rfl (by rw [hl]; simp) (reachable_none ts)] at hrun
      exact ⟨n, r, s₁, hrun, heof, hbody⟩
  · exact absurd hhead hret

theorem returned_of_completes {s : State} {l : Lexeme} {ts : List Lexeme} (hl : l.token = .word .kReturn)
    (h : Completes (s.before (l :: ts) none)) :
    ∃ n r s', (returned n).run (State.before { s with level := s.level + 1, last := l.line } ts none) = .ok (r, s') ∧
      headToken s'.tokens = .eof := by
  obtain ⟨body, h⟩ := completes_iff.1 h
  obtain ⟨n, r, s', hrun, heof, -⟩ := returned_of_yields hl h
  exact ⟨n, r, s', hrun, heof⟩

/-- Tokens that may follow a program, but not `return`, and complete it if no jump is left. -/
structure Sequel (A : List Lexeme) : Prop extends Border A where
  neutral : Neutral A
  returned : ∀ (s : State) l, l.token = .word .kReturn → ¬ Completes (s.before (l :: A) none)

theorem Border.calm (h : Border A) : Calm (headToken A) := by
  rcases h.head with hA | hA | ⟨w, x, rest, hA⟩
  · rw [hA]
    exact ⟨trivial, by simp⟩
  · rw [hA]
    exact ⟨trivial, by simp⟩
  · obtain ⟨l, A, rfl, hl, -⟩ := List.map_eq_cons_iff.1 hA
    rw [headToken_cons, hl]
    exact ⟨trivial, by simp⟩

/-- Nothing follows the values that a program returns. -/
theorem not_completes_after_return (hE : headToken E = .eof) (hA : Sequel A) {s : State} {l : Lexeme} {T : List Lexeme}
    (heof : ∀ l ∈ T, l.token ≠ .eof) (hl : l.token = .word .kReturn) (h : Completes (s.before (l :: T ++ E) none)) :
    ¬ Completes (s.before (l :: T ++ A) none) := by
  intro hcont
  obtain ⟨n, r, s₁, hrun, hend⟩ := returned_of_completes hl h
  obtain ⟨m, r', s₂, hrun', hend'⟩ := returned_of_completes hl hcont
  cases T with
  | nil => exact hA.returned s l hl hcont
  | cons a T =>
    by_cases ha : endsBlock true a.token = true
    · have hstay : headToken s₁.tokens = a.token := moves_returned_stay n ha _ r s₁ rfl hrun
      exact heof a List.mem_cons_self (hstay.symm.trans hend)
    · have ha' : endsBlock true a.token = false := Bool.eq_false_iff.2 ha
      obtain ⟨C, hC, -, -, -, hCeof, -⟩ := reads_returned n _ r s₁ (by exact ha') hrun
      obtain ⟨T', hT, hs₁⟩ := append_eq_before_eof (T := a :: T) hC hCeof hE
      cases T' with
      | cons b T' =>
        rw [hs₁] at hend
        exact heof b (by rw [hT]; simp) hend
      | nil =>
        rw [List.append_nil] at hT
        rw [List.nil_append] at hs₁
        have hmeets : Meets Inert s₁.tokens A := .inr (by rw [hs₁, hE]; exact ⟨trivial, hA.calm.1⟩)
        obtain ⟨k, hthere⟩ := (reads_returned n).before (by exact ha') hrun hC hmeets
        have hagree := (reads_returned k).agree (reads_returned m) (s := State.before _ (C ++ A) none)
          (by rw [← hT]; exact ha') (by rw [← hT]; exact ha') rfl hthere (hT ▸ hrun')
        rw [← hagree.2] at hend'
        exact hA.calm.2 hend'

/-- A statement of a program does the same before another rest, unless it is a label at the end. -/
theorem statement_before {s s' : State} {n : Nat} {ss : List Stmt} {l : Lexeme} {T C T' R R' : List Lexeme}
    (hrun : (nested (statement n)).run (s.before (l :: T ++ R) none) = .ok (ss, s')) (hT : l :: T = C ++ T')
    (hs' : s'.tokens = T' ++ R) (hR : Inert (headToken R)) (hR' : Inert (headToken R'))
    (hlabel : l.token ≠ .sym .dcolon ∨ T' ≠ []) :
    ∃ m, (nested (statement m)).run (s.before (l :: T ++ R') none) = .ok (ss, s'.before (T' ++ R') none) := by
  have hC : (s.before (l :: T ++ R) none).tokens = C ++ s'.tokens := by
    rw [hs', ← List.append_assoc, ← hT]
    rfl
  have hgoal : l :: T ++ R' = C ++ (T' ++ R') := by rw [hT, List.append_assoc]
  rw [hgoal]
  by_cases hl : l.token = .sym .dcolon
  · have hmeets : Meets Calm s'.tokens (T' ++ R') := by
      rw [hs']
      cases T' with
      | nil => exact absurd rfl (hlabel.resolve_left fun h => h hl)
      | cons b T' => exact .inl rfl
    exact (grammar n).anyStatement.nested.before trivial hrun hC hmeets
  · have hmeets : Meets Inert s'.tokens (T' ++ R') := by
      rw [hs']
      cases T' with
      | nil => exact .inr ⟨hR, hR'⟩
      | cons b T' => exact .inl rfl
    exact (grammar n).statement.nested.before (by exact hl) hrun hC hmeets

/-- The first statement of a program that completes. -/
theorem first_statement {s : State} {l : Lexeme} {T E : List Lexeme} (hE : headToken E = .eof)
    (heof : ∀ l' ∈ l :: T, l'.token ≠ .eof) (hret : l.token ≠ .word .kReturn)
    (h : Completes (s.before (l :: T ++ E) none)) :
    ∃ n ss s' C T', (nested (statement n)).run (s.before (l :: T ++ E) none) = .ok (ss, s') ∧ Completes s' ∧
      endsBlock true l.token = false ∧ l :: T = C ++ T' ∧ s'.tokens = T' ++ E ∧ T'.length ≤ T.length := by
  rcases h.cases with ⟨hend, -⟩ | ⟨hret', -⟩ | ⟨hends, -, n, ss, s', hrun, h'⟩
  · exact absurd hend (heof l List.mem_cons_self)
  · exact absurd hret' hret
  · obtain ⟨C, hC, hlen, -, -, hCeof, -⟩ := (grammar n).anyStatement.nested _ ss s' trivial hrun
    obtain ⟨T', hT, hs'⟩ := append_eq_before_eof (T := l :: T) hC hCeof hE
    have hlength := congrArg List.length hT
    rw [List.length_append, List.length_cons] at hlength
    exact ⟨n, ss, s', C, T', hrun, h', hends, hT, hs', by omega⟩

/-- A label that ends a program is read in the same way before all sequels. -/
theorem completes_label_sequel (hE : headToken E = .eof) (hB : Sequel B) (hA : Sequel A) {s s' : State} {n : Nat}
    {ss : List Stmt} {l : Lexeme} {T : List Lexeme} (htop : TopLevel s) (hl : l.token = .sym .dcolon)
    (hrun : (nested (statement n)).run (s.before (l :: T ++ E) none) = .ok (ss, s')) (hs' : s'.tokens = [] ++ E)
    (hcont : Completes (s.before (l :: T ++ B) none)) : Completes (s.before (l :: T ++ A) none) := by
  have hends : ∀ R, endsBlock true (headToken (s.before (l :: T ++ R) none).tokens) = false := fun R => by
    change endsBlock true l.token = false
    rw [hl]
    rfl
  have hret : ∀ R, headToken (s.before (l :: T ++ R) none).tokens ≠ .word .kReturn := fun R => by
    change l.token ≠ _
    rw [hl]
    simp
  rcases hcont.cases with ⟨heof, -⟩ | ⟨hret', -⟩ | ⟨-, -, m, ss₂, s₂, hrun₂, h₂⟩
  · exact absurd (hl.symm.trans heof) (by simp)
  · exact absurd hret' (hret B)
  · have hbare : Bare (l :: T) B (l :: T ++ B) := ⟨⟨l :: T, List.suffix_refl _, rfl⟩, .inr hl⟩
    obtain ⟨T₂, ⟨C, hC⟩, hs₂⟩ := (hB.labelStops m).statement.nested _ ss₂ s₂ hbare hrun₂
    have hEi : Inert (headToken E) := by rw [hE]; trivial
    rcases T₂ with _ | ⟨b, T₂⟩
    · rw [List.append_nil] at hC
      rw [List.nil_append] at hs₂
      have hmeets : Meets Calm s₂.tokens A := .inr (by rw [hs₂]; exact ⟨hB.calm, hA.calm⟩)
      have htokens : (s.before (l :: T ++ B) none).tokens = l :: T ++ s₂.tokens := by rw [hs₂]; rfl
      obtain ⟨m', hrunA⟩ := (grammar m).anyStatement.nested.before trivial hrun₂ htokens hmeets
      have htop₂ : TopLevel s₂ := (htop.before _).statement hrun₂
      have hescaping : escaping s₂.funcs = [] := (hB.neutral s₂ hs₂ htop₂).1 h₂
      exact .of_statement rfl (hends A) (hret A) hrunA ((hA.neutral _ rfl (htop₂.before A)).2 hescaping)
    · -- otherwise the label would end earlier in the program, too
      obtain ⟨m', hrunE⟩ := statement_before hrun₂ hC.symm hs₂ hB.calm.1 hEi (.inr (by simp))
      have hagree := (grammar n).anyStatement.nested.agree (grammar m').anyStatement.nested trivial trivial rfl hrun hrunE
      have hlength := congrArg (fun s => s.tokens.length) hagree.2
      rw [hs'] at hlength
      simp only [State.before, List.nil_append, List.cons_append, List.length_cons, List.length_append] at hlength
      omega

/-- If a program is valid, and also with one sequel behind it, then any other sequel may follow it. -/
theorem completes_sequel (hE : headToken E = .eof) (hB : Sequel B) (hA : Sequel A) :
    ∀ k T s, T.length ≤ k → (∀ l ∈ T, l.token ≠ .eof) → TopLevel s → Completes (s.before (T ++ E) none) →
      Completes (s.before (T ++ B) none) → Completes (s.before (T ++ A) none)
  | _, [], s, _, _, htop, h, _ => by
    have hend : headToken (s.before ([] ++ E) none).tokens = .eof := hE
    have hescaping : escaping s.funcs = [] := (completes_eof_iff hend).1 h
    exact (hA.neutral _ rfl (htop.before A)).2 hescaping
  | k + 1, l :: T, s, hk, heof, htop, h, hcont => by
    by_cases hret : l.token = .word .kReturn
    · exact absurd hcont (not_completes_after_return hE hB (fun l hl => heof l (by simp [hl])) hret h)
    · obtain ⟨n, ss, s', C, T', hrun, h', hends, hT, hs', hlen⟩ := first_statement hE heof hret h
      have hends' : ∀ R, endsBlock true (headToken (s.before (l :: T ++ R) none).tokens) = false := fun R => hends
      have hret' : ∀ R, headToken (s.before (l :: T ++ R) none).tokens ≠ .word .kReturn := fun R => hret
      have htop' : TopLevel s' := (htop.before _).statement hrun
      have hEi : Inert (headToken E) := by rw [hE]; trivial
      by_cases hlabel : l.token ≠ .sym .dcolon ∨ T' ≠ []
      · obtain ⟨m, hrunB⟩ := statement_before hrun hT hs' hEi hB.calm.1 hlabel
        obtain ⟨m', hrunA⟩ := statement_before hrun hT hs' hEi hA.calm.1 hlabel
        have hcont' := (completes_statement_iff rfl (hends' B) (hret' B) hrunB).1 hcont
        rw [← State.before_self htop'.failure, hs'] at h'
        have heof' : ∀ l ∈ T', l.token ≠ .eof := fun l' hl' => heof l' (by rw [hT]; simp [hl'])
        have hmore := completes_sequel hE hB hA k T' s' (by simp at hk; omega) heof' htop' h' hcont'
        exact .of_statement rfl (hends' A) (hret' A) hrunA hmore
      · have hl : l.token = .sym .dcolon := Classical.not_not.1 fun h => hlabel (.inl h)
        obtain rfl : T' = [] := Classical.not_not.1 fun h => hlabel (.inr h)
        exact completes_label_sequel hE hB hA htop hl hrun hs' hcont

/-! ## The program on its own -/

/-- A program that returns values ends with them. -/
theorem not_completes_return (h : Seam T₀ A) (heof : ∀ l ∈ T₀, l.token ≠ .eof) {s : State} {l : Lexeme}
    {T : List Lexeme} (hT : l :: T <:+ T₀) (hret : l.token = .word .kReturn) :
    ¬ Completes (s.before (l :: T ++ A) none) := by
  intro hcomp
  rcases hcomp.cases with ⟨hend, -⟩ | ⟨-, n, r, s', hrun, hend, -⟩ | ⟨-, hret', -⟩
  · exact absurd (hret.symm.trans hend) (by simp)
  · rcases (moves_returnStmt h n).nested _ r s' ⟨l, T, hT, rfl⟩ hrun with ⟨T', hT', hs'⟩ | hkey
    · rw [hs'] at hend
      cases T' with
      | nil => exact h.head_ne (t := .eof) rfl hend
      | cons l' T' => exact heof l' (hT'.subset List.mem_cons_self) hend
    · exact absurd (hend.symm.trans hkey) (by simp)
  · exact hret' hret

/-- If a program is valid with lines behind it, then it is valid without them. -/
theorem completes_alone (h : Seam T₀ A) (heof : ∀ l ∈ T₀, l.token ≠ .eof) (hAn : Neutral A) (hE : headToken E = .eof) :
    ∀ k T s, T.length ≤ k → T <:+ T₀ → TopLevel s → Completes (s.before (T ++ A) none) →
      Completes (s.before (T ++ E) none)
  | _, [], s, _, _, htop, hcomp =>
    .of_eof hE ((hAn (s.before A none) rfl (htop.before A)).1 hcomp)
  | k + 1, l :: T, s, hk, hT, htop, hcomp => by
    have hne : l.token ≠ .eof := heof l (hT.subset List.mem_cons_self)
    rcases hcomp.cases with ⟨hend, -⟩ | ⟨hret, -⟩ | ⟨hends, hret, n, ss, s', hrun, h'⟩
    · exact absurd hend hne
    · exact absurd hcomp (not_completes_return h heof hT hret)
    · have hends' : endsBlock true (headToken (s.before (l :: T ++ E) none).tokens) = false := hends
      have hret' : headToken (s.before (l :: T ++ E) none).tokens ≠ .word .kReturn := hret
      have htop' : TopLevel s' := (htop.before _).statement hrun
      have hEi : Inert (headToken E) := by rw [hE]; trivial
      rcases (h.moves_statement n).nested _ ss s' ⟨l, T, hT, rfl⟩ hrun with ⟨T', hT', hs'⟩ | hafter | hkey
      · obtain ⟨C, hC, hlen, -⟩ := (grammar n).anyStatement.nested _ ss s' trivial hrun
        have hC' : l :: T = C ++ T' := by
          refine List.append_cancel_right (?_ : l :: T ++ A = C ++ T' ++ A)
          rw [List.append_assoc, ← hs']
          exact hC
        by_cases hlabel : l.token ≠ .sym .dcolon ∨ T' ≠ []
        · obtain ⟨m, hrunE⟩ := statement_before hrun hC' hs' h.calm.1 hEi hlabel
          have hlength := congrArg List.length hC'
          rw [List.length_append, List.length_cons] at hlength
          rw [List.length_cons] at hk
          rw [← State.before_self htop'.failure, hs'] at h'
          exact .of_statement rfl hends' hret' hrunE (completes_alone h heof hAn hE k T' s' (by omega) hT' htop' h')
        · have hl : l.token = .sym .dcolon := Classical.not_not.1 fun h => hlabel (.inl h)
          obtain rfl : T' = [] := Classical.not_not.1 fun h => hlabel (.inr h)
          obtain ⟨m, ss₂, s₂, hrunE, hs₂, hescaping⟩ := label_before_eof h.calm hE htop hl hrun hs'
          have hnone : escaping s'.funcs = [] := (hAn s' hs' htop').1 h'
          exact .of_statement rfl hends' hret' hrunE (.of_eof (by rw [hs₂]; exact hE) (hescaping.trans hnone))
      · have hhead := (hafter.next h.toBorder).head
        exact absurd h' (not_completes_of_head (by rw [hhead]; rfl) (by rw [hhead]; simp) (by rw [hhead]; simp))
      · have hhead : headToken s'.tokens = .sym .assign := hkey
        exact absurd h' (not_completes_of_head (by rw [hhead]; rfl) (by rw [hhead]; simp) (by rw [hhead]; simp))

/-! ## Sequels -/

theorem sequel_block {a b e : Lexeme} (ha : a.token = .word .kDo) (hb : b.token = .word .kEnd) (he : e.token = .eof) :
    Sequel [a, b, e] where
  head := .inr (.inl ha)
  neutral := neutral_block ha hb he
  returned := by
    intro s l hl h
    obtain ⟨n, r, s', hrun, -⟩ := returned_of_completes hl h
    exact moves_returned_do n _ r s' (show headToken [a, b, e] = .word .kDo from ha) hrun

theorem mem_of_mem_intersperse {α : Type} {sep x : α} : ∀ {xs : List α}, x ∈ xs.intersperse sep → x ∈ xs ∨ x = sep
  | [_], h => .inl h
  | y :: z :: xs, h => by
    rw [List.intersperse_cons_cons, List.mem_cons, List.mem_cons] at h
    rcases h with rfl | rfl | h
    · exact .inl List.mem_cons_self
    · exact .inr rfl
    · exact (mem_of_mem_intersperse h).imp_left (List.mem_cons_of_mem y)

variable {env : Bytes} {names copies : List Bytes}

/-- Lines that copy and return variables may follow a program, unless its last token is a comma or a dot before a copy. -/
theorem seam_lines (hA : A.map Lexeme.token = copies.flatMap (copyTokens env) ++ (returnTokens names ++ [.eof]))
    (hlast : copies ≠ [] → ∀ l ∈ T₀.getLast?, l.token ≠ .sym .comma ∧ l.token ≠ .sym .dot) : Seam T₀ A where
  head := by
    cases copies with
    | nil =>
      obtain ⟨l, A, rfl, hl, -⟩ := List.map_eq_cons_iff.1 hA
      exact .inl hl
    | cons x copies => exact .inr (.inr ⟨env, x, _, hA⟩)
  last := by
    intro w hw
    cases copies with
    | nil =>
      obtain ⟨l, A, rfl, hl, -⟩ := List.map_eq_cons_iff.1 hA
      rw [headToken_cons, hl] at hw
      cases hw
    | cons x copies => exact hlast (by simp)
  closed := by
    intro l hl
    have htoken : l.token ∈ A.map Lexeme.token := List.mem_map_of_mem hl
    rw [hA, List.mem_append, List.mem_append, List.mem_flatMap] at htoken
    rcases htoken with ⟨x, -, hx⟩ | hreturn | heof
    · simp only [copyTokens, List.mem_cons, List.not_mem_nil, or_false] at hx
      rcases hx with h | h | h | h | h | h <;> rw [h] <;> rfl
    · rcases List.mem_cons.1 hreturn with h | h
      · rw [h]
        rfl
      · rcases mem_of_mem_intersperse h with hname | hcomma
        · obtain ⟨x, -, hx⟩ := List.mem_map.1 hname
          rw [← hx]
          rfl
        · rw [hcomma]
          rfl
    · rw [List.mem_singleton.1 heof]
      rfl

theorem sequel_lines (hnames : names ≠ [])
    (hA : A.map Lexeme.token = copies.flatMap (copyTokens env) ++ (returnTokens names ++ [.eof])) : Sequel A where
  toBorder := (seam_lines hA (by simp) : Seam [] A).toBorder
  neutral := neutral_lines hnames hA
  returned := by
    intro s l hl
    have hseam : Seam [l] A := seam_lines hA fun _ l' hl' => by
      obtain rfl : l = l' := by simpa using hl'
      rw [hl]
      exact ⟨by simp, by simp⟩
    have hne : ∀ l' ∈ [l], l'.token ≠ .eof := by
      intro l' hl'
      rw [List.mem_singleton.1 hl', hl]
      simp
    exact not_completes_return hseam hne (List.suffix_refl [l]) hl

end Continued

end Scratchpad.Lua.Parser
