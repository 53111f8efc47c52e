import Scratchpad.Proofs.Lua.Parser.Returned

/-!
# Programs that are one declaration

A program that is one declaration of local variables (`IsDeclaration`) has the tokens of that declaration, up to
semicolons. Main statement: what stands behind it is read with just its variables in scope, and if the tokens behind
`local` are those of a list of names (`Opens`), then these are the declared names (`IsDeclaration.before`).
-/

namespace Scratchpad.Lua.Parser

variable {α β : Type}

/-- The statements of a program with the tokens `ts` are one declaration of the variables `names`, with these initial
values. The name of a local function stands behind two words. -/
inductive IsDeclaration (ts : List Lexeme) : List Stmt → List Bytes → List Expr → Prop where
  | locals (names : List (Bytes × Bool)) (values : List Expr) (line : Nat) :
      IsDeclaration ts [.locals names values line] (names.map Prod.fst) values
  | function {f name} (hname : (ts[2]?).map Lexeme.token = some (.name name)) :
      IsDeclaration ts [.localFunction f] [name] []

/-- The variables that a program declares if it is one declaration, and their initial values. -/
def declaration? (ts : List Lexeme) : List Stmt → Option (List Bytes × List Expr)
  | [.locals names values _] => some (names.map Prod.fst, values)
  | [.localFunction _] =>
    match (ts[2]?).map Lexeme.token with
    | some (.name w) => some ([w], [])
    | _ => none
  | _ => none

theorem isDeclaration_iff {ts : List Lexeme} {body : List Stmt} {names : List Bytes} {values : List Expr} :
    IsDeclaration ts body names values ↔ declaration? ts body = some (names, values) := by
  constructor
  · intro h
    cases h with
    | locals => rfl
    | function hname => rw [declaration?, hname]
  · intro h
    unfold declaration? at h
    split at h
    · cases h
      exact .locals _ _ _
    · split at h
      · rename_i hname
        cases h
        exact .function hname
      · cases h
    · cases h

/-! ## Empty statements -/

/-- What the reader succeeds with is not empty. -/
def Fruitful (p : Parse (List α)) : Prop :=
  ∀ s r s', p.run s = .ok (r, s') → r ≠ []

section Fruitful

variable {p p' : Parse (List α)}

theorem Fruitful.behind {a : Parse β} {q : β → Parse (List α)} (h : ∀ b, Fruitful (q b)) : Fruitful (a >>= q) := by
  intro s r s' hrun
  obtain ⟨b, s₁, -, hrest⟩ := run_bind_eq_ok hrun
  exact h b s₁ r s' hrest

theorem fruitful_pure {x : α} {xs : List α} : Fruitful (pure (x :: xs)) := by
  intro s r s' hrun
  cases hrun
  simp

theorem fruitful_failNear (message : Bytes) : Fruitful (failNear message : Parse (List α)) := by
  intro s r s' hrun
  cases hrun

theorem Fruitful.ite {c : Prop} [Decidable c] (h : Fruitful p) (h' : Fruitful p') :
    Fruitful (if c then p else p') := by
  split
  · exact h
  · exact h'

theorem Fruitful.inBlock (h : Fruitful p) (isLoop : Bool) : Fruitful (inBlock isLoop p) := by
  intro s r s' hrun
  obtain ⟨_, s₁, -, hrun₁⟩ := run_bind_eq_ok hrun
  obtain ⟨r₁, s₂, hp, hrun₂⟩ := run_bind_eq_ok hrun₁
  obtain ⟨_, s₃, -, hpure⟩ := run_bind_eq_ok hrun₂
  cases hpure
  exact h s₁ _ s₂ hp

theorem fruitful_localFunction (n : Nat) : Fruitful (localFunction n) := by
  cases n with
  | zero => rw [localFunction]; exact fruitful_failNear _
  | succ n =>
    rw [localFunction]
    exact .behind fun _ => .behind fun _ => .behind fun _ => .behind fun _ => .behind fun _ => fruitful_pure

theorem fruitful_declareLocals (names : List Local) (values : List Expr) : Fruitful (declareLocals names values) := by
  rw [declareLocals]
  exact .behind fun _ => .behind fun _ => .behind fun _ => .ite (.behind fun _ => fruitful_pure) fruitful_pure

theorem fruitful_localStmt (n : Nat) : Fruitful (localStmt n) := by
  cases n with
  | zero => rw [localStmt]; exact fruitful_failNear _
  | succ n =>
    rw [localStmt_succ]
    exact .behind fun names => .behind fun b => .ite (.behind fun values => fruitful_declareLocals names values)
      (.behind fun values => fruitful_declareLocals names values)

theorem fruitful_labelStmt (n : Nat) (name : Bytes) (line : Nat) : Fruitful (labelStmt n name line) := by
  cases n with
  | zero => rw [labelStmt]; exact fruitful_failNear _
  | succ n =>
    rw [labelStmt]
    refine .behind fun _ => .behind fun _ => .behind fun found => ?_
    split
    · exact .behind fun _ => .behind fun _ => .behind fun _ => .behind fun _ => .behind fun _ => .behind fun _ =>
        fruitful_pure
    · exact .behind fun _ => .behind fun _ => .behind fun _ => .behind fun _ => .behind fun _ => fruitful_pure

theorem fruitful_forStmt (n line : Nat) : Fruitful (forStmt n line) := by
  cases n with
  | zero => rw [forStmt]; exact fruitful_failNear _
  | succ n =>
    rw [forStmt]
    refine .inBlock (.behind fun _ => .behind fun _ => .behind fun _ => ?_) true
    split
    · refine .behind fun _ => .behind fun _ => .behind fun _ => .behind fun _ => .behind fun _ => ?_
      exact .ite (.behind fun _ => .behind fun _ => fruitful_pure) (.behind fun _ => .behind fun _ => fruitful_pure)
    · exact .behind fun _ => .behind fun _ => .behind fun _ => .behind fun _ => .behind fun _ => .behind fun _ =>
        .behind fun _ => fruitful_pure
    · exact .behind fun _ => .behind fun _ => .behind fun _ => .behind fun _ => .behind fun _ => .behind fun _ =>
        .behind fun _ => fruitful_pure
    · exact fruitful_failNear _

theorem fruitful_exprStmt (n : Nat) : Fruitful (exprStmt n) := by
  cases n with
  | zero => rw [exprStmt]; exact fruitful_failNear _
  | succ n =>
    rw [exprStmt]
    refine .behind fun _ => .behind fun _ => .behind fun _ => .ite ?_ (.ite fruitful_pure (fruitful_failNear _))
    exact .behind fun _ => .behind fun _ => fruitful_pure

/-- Only a semicolon is an empty statement. -/
theorem semi_of_statement_nil {n : Nat} {s s' : State} (h : (statement n).run s = .ok ([], s')) :
    headToken s.tokens = .sym .semi := by
  cases n with
  | zero =>
    rw [statement] at h
    cases h
  | succ n =>
    rw [statement] at h
    obtain ⟨line, s₁, hline, hrun⟩ := run_bind_eq_ok h
    obtain ⟨t, s₂, htoken, h⟩ := run_bind_eq_ok hrun
    obtain rfl := looks_currentLine _ _ _ hline
    rw [run_currentToken] at htoken
    cases htoken
    -- every other statement yields something
    have hempty : ∀ {p : Parse (List Stmt)} {s : State}, Fruitful p → p.run s = .ok ([], s') → False :=
      fun hp hrun => hp _ _ _ hrun rfl
    split at h
    · assumption
    · exact (hempty (.behind fun _ => .behind fun _ => fruitful_pure) h).elim
    · refine (hempty (.behind fun _ => .behind fun _ => .behind fun _ => .inBlock ?_ true) h).elim
      exact .behind fun _ => .behind fun _ => .behind fun _ => fruitful_pure
    · exact (hempty (.behind fun _ => .behind fun _ => .behind fun _ => fruitful_pure) h).elim
    · exact (hempty (fruitful_forStmt n line) h).elim
    · refine (hempty (.behind fun _ => .inBlock (.inBlock ?_ false) true) h).elim
      exact .behind fun _ => .behind fun _ => .behind fun _ => .behind fun _ => fruitful_pure
    · exact (hempty (.behind fun _ => .behind fun _ => fruitful_pure) h).elim
    · exact (hempty (.behind fun _ => .behind fun _ => .ite (fruitful_localFunction n) (fruitful_localStmt n)) h).elim
    · exact (hempty (.behind fun _ => .behind fun name => fruitful_labelStmt n name line) h).elim
    · exact (hempty (.behind fun _ => .behind fun _ => fruitful_pure) h).elim
    · refine (hempty (.behind fun _ => .behind fun _ => .behind fun found => ?_) h).elim
      split
      · exact fruitful_pure
      · exact .behind fun _ => fruitful_pure
    · exact (hempty (fruitful_exprStmt n) h).elim

end Fruitful

/-! ## Semicolons -/

section Semicolons

variable {A E : List Lexeme}

/-- What is left of a program without statements are semicolons. -/
theorem Yields.semicolons (hE : headToken E = .eof) : ∀ {T : List Lexeme} {s : State}, s.tokens = T ++ E →
    s.failure = none → (∀ l ∈ T, l.token ≠ .eof) → Yields s [] → ∀ l ∈ T, l.token = .sym .semi
  | [], _, _, _, _, _ => fun _ hl => (List.not_mem_nil hl).elim
  | l :: T, s, hs, hf, heof, h => by
    have hhead : headToken s.tokens = l.token := by
      rw [hs]
      rfl
    rcases h.cases with ⟨hend, -⟩ | ⟨-, n, r, s', -, hbody, -⟩ | ⟨-, -, n, ss, s', more, hrun, hbody, hmore⟩
    · exact absurd (hhead.symm.trans hend) (heof l List.mem_cons_self)
    · cases hbody
    · obtain ⟨rfl, rfl⟩ := List.append_eq_nil_iff.1 hbody.symm
      obtain ⟨s₁, hstatement, rfl⟩ := nested_eq_ok hrun
      have hsemi : l.token = .sym .semi := 
        hhead.symm.trans (semi_of_statement_nil (s := s.atLevel (s.level + 1)) hstatement)
      cases n with
      | zero =>
        rw [statement] at hstatement
        cases hstatement
      | succ n =>
        cases (run_semi (s := s.atLevel (s.level + 1)) hs hsemi hf n).symm.trans hstatement
        have hrest := Yields.semicolons hE (s := s.behind l (T ++ E)) rfl hf
          (fun l' hl' => heof l' (List.mem_cons_of_mem l hl')) hmore
        exact List.forall_mem_cons.2 ⟨hsemi, hrest⟩

/-- Semicolons may stand before the rest of a program. -/
theorem yields_semicolons : ∀ {T : List Lexeme} {s : State}, s.tokens = T ++ A → TopLevel s →
    (∀ l ∈ T, l.token = .sym .semi) →
      ∃ s', s'.tokens = A ∧ s'.funcs = s.funcs ∧ TopLevel s' ∧ ∀ body, Yields s' body → Yields s body
  | [], s, hs, htop, _ => ⟨s, hs, rfl, htop, fun _ h => h⟩
  | l :: T, s, hs, htop, hsemi => by
    have hl : l.token = .sym .semi := hsemi l List.mem_cons_self
    have hhead : headToken s.tokens = .sym .semi := by
      rw [hs]
      exact hl
    have hrun : (nested (statement 1)).run s = .ok ([], s.behind l (T ++ A)) := by
      obtain ⟨tokens, failure, last, funcs, level, source⟩ := s
      obtain rfl : level = 0 := htop.level
      rw [run_nested, if_neg (show ¬ maxLevels ≤ 0 + 1 by decide), run_semi (s := ⟨tokens, failure, last, funcs, 1, source⟩) hs hl htop.failure 0]
      rfl
    obtain ⟨s', hs', hfuncs, htop', hmore⟩ := yields_semicolons (s := s.behind l (T ++ A)) rfl
      ⟨htop.failure, htop.level, htop.scopes⟩ fun l' hl' => hsemi l' (List.mem_cons_of_mem l hl')
    refine ⟨s', hs', hfuncs, htop', fun body hbody => ?_⟩
    exact .of_statement htop.failure (by rw [hhead]; rfl) (by rw [hhead]; simp) hrun (hmore body hbody)

end Semicolons

/-! ## The names of a declaration -/

/-- Tokens that begin with the names `names`, with commas between or around them, up to an equals sign or the end; or a
stray byte stands among them. -/
inductive Listed : List Lexeme → List Bytes → Prop where
  | stray {ts names} (h : Stray ts) : Listed ts names
  | last {ts} (h : headToken ts = .sym .assign ∨ headToken ts = .eof) : Listed ts []
  | comma {l ts names} (hl : l.token = .sym .comma) (h : Listed ts names) : Listed (l :: ts) names
  | name {l ts w names} (hl : l.token = .name w) (h : Listed ts names) : Listed (l :: ts) (w :: names)

section Listed

variable {l : Lexeme} {ts : List Lexeme} {w : Bytes} {names : List Bytes}

theorem Listed.behind_name (h : Listed (l :: ts) names) (hl : l.token = .name w) :
    ∃ more, names = w :: more ∧ Listed ts more := by
  cases h with
  | stray h =>
    obtain ⟨b, hb⟩ := h
    cases hl.symm.trans hb
  | last h =>
    rcases h with h | h
    · cases hl.symm.trans h
    · cases hl.symm.trans h
  | comma hl' => cases hl.symm.trans hl'
  | name hl' h =>
    cases hl.symm.trans hl'
    exact ⟨_, rfl, h⟩

theorem Listed.behind_comma (h : Listed (l :: ts) names) (hl : l.token = .sym .comma) : Listed ts names := by
  cases h with
  | stray h =>
    obtain ⟨b, hb⟩ := h
    cases hl.symm.trans hb
  | last h =>
    rcases h with h | h
    · cases hl.symm.trans h
    · cases hl.symm.trans h
  | comma _ h => exact h
  | name hl' => cases hl.symm.trans hl'

/-- Behind the names, or before one of them that no comma separates, no statement goes on. -/
theorem Listed.head (h : Listed ts names) (hcomma : headToken ts ≠ .sym .comma) :
    Stray ts ∨ (names = [] ∧ (headToken ts = .sym .assign ∨ headToken ts = .eof)) ∨ ∃ w, headToken ts = .name w := by
  cases h with
  | stray h => exact .inl h
  | last h => exact .inr (.inl ⟨rfl, h⟩)
  | comma hl => exact absurd hl hcomma
  | name hl => exact .inr (.inr ⟨_, hl⟩)

theorem Listed.ne_lt (h : Listed ts names) : headToken ts ≠ .sym .lt := by
  cases h with
  | stray h =>
    obtain ⟨b, hb⟩ := h
    rw [hb]
    simp
  | last h => rcases h with h | h <;> rw [h] <;> simp
  | comma hl => rw [headToken_cons, hl]; simp
  | name hl => rw [headToken_cons, hl]; simp

end Listed

section Names

variable {n : Nat} {s s' : State} {names : List Bytes}

theorem run_angleBinding (h : headToken s.tokens ≠ .sym .lt) : angleBinding.run s = .ok (.plain, s) := by
  have htest : (testSym .lt).run s = .ok (false, s) := by
    rw [testSym, testNext, run_bind, run_currentToken]
    change StateT.run (if headToken s.tokens = .sym .lt then _ else _) s = _
    rw [if_neg h]
    rfl
  rw [angleBinding, run_bind, htest]
  rfl

/-- The names of a declaration are read one after another, as far as there are commas between them. -/
theorem attributedNames_listed : ∀ {n : Nat} {s s' : State} {names : List Bytes} {closing : Bool} {ls : List Local},
    Listed s.tokens names → (attributedNames n closing).run s = .ok (ls, s') →
      ∃ ns more, names = ns ++ more ∧ ls = plainLocals ns ∧ Listed s'.tokens more ∧ headToken s'.tokens ≠ .sym .comma
  | 0, _, _, _, _, _, _, hrun => by cases hrun
  | n + 1, s, s', names, closing, ls, h, hrun => by
    rw [attributedNames] at hrun
    obtain ⟨w, s₁, hname, hrun₁⟩ := run_bind_eq_ok hrun
    obtain ⟨c, ts, hs, hc, rfl⟩ := expectName_eq_ok hname
    rw [hs] at h
    obtain ⟨names, rfl, hlisted⟩ := h.behind_name hc
    obtain ⟨b, s₂, hangle, hrun₂⟩ := run_bind_eq_ok hrun₁
    cases (run_angleBinding (s := s.behind c ts) hlisted.ne_lt).symm.trans hangle
    obtain ⟨more?, s₃, htest, hrun₃⟩ := run_bind_eq_ok (p := testSym .comma) hrun₂
    rcases testNext_eq_ok htest with ⟨rfl, hcomma, hadvance⟩ | ⟨rfl, hcomma, rfl⟩
    · obtain ⟨l, ts', hts, -, -, rfl⟩ := advance_eq_ok (by rw [hcomma]; simp) hadvance
      obtain rfl : ts = l :: ts' := hts
      obtain ⟨rest, s₄, hrest, hpure⟩ := run_bind_eq_ok hrun₃
      cases hpure
      obtain ⟨ns, more, rfl, rfl, hmore⟩ := attributedNames_listed (hlisted.behind_comma hcomma) hrest
      exact ⟨w :: ns, more, rfl, rfl, hmore⟩
    · cases hrun₃
      exact ⟨[w], names, rfl, rfl, hlisted, hcomma⟩

end Names

/-! ## Declarations -/

section Declarations

variable {n : Nat} {s s' : State} {names : List Bytes} {ss : List Stmt} {f : FuncScope} {rest : List FuncScope}

/-- The scopes with further variables in the innermost function. -/
def withLocals (names : List Bytes) (f : FuncScope) (rest : List FuncScope) : List FuncScope :=
  { f with locals := (plainLocals names).reverse ++ f.locals } :: rest

theorem run_declare (names : List Bytes) (hs : s.funcs = f :: rest) :
    (declare (plainLocals names)).run s = .ok ((), { s with funcs := withLocals names f rest }) := by
  obtain ⟨tokens, failure, last, funcs, level, source⟩ := s
  obtain rfl : funcs = f :: rest := hs
  rfl

theorem isClose_plainLocals (names : List Bytes) : ((plainLocals names).any fun l => isClose l.binding) = false := by
  simp [plainLocals, isClose]

/-- Variables without attributes stand for no constants. -/
theorem withConstant_plainLocals (names : List Bytes) (values : List Expr) :
    withConstant (plainLocals names) values = plainLocals names := by
  rw [withConstant]
  split
  · split
    · rename_i l before e hreverse hlast
      have hl : l ∈ plainLocals names := by
        rw [← List.mem_reverse, hreverse]
        exact List.mem_cons_self
      obtain ⟨w, -, rfl⟩ := List.mem_map.1 hl
      rfl
    · rfl
  · rfl

/-- What comes behind the names and the values of a declaration declares the names. -/
theorem run_declareLocals {ns : List Bytes} {values : List Expr} (hfuncs : s.funcs = f :: rest)
    (hrun : (declareLocals (plainLocals ns) values).run s = .ok (ss, s')) :
    ∃ values line, ss = [.locals (ns.map fun w => (w, false)) values line] ∧ s'.funcs = withLocals ns f rest := by
  rw [declareLocals] at hrun
  obtain ⟨line, s₁, hline, hrun₁⟩ := run_bind_eq_ok hrun
  cases hline
  obtain ⟨_, s₂, hcheck, hrun₂⟩ := run_bind_eq_ok hrun₁
  obtain rfl := looks_checkLocals _ _ _ _ hcheck
  dsimp only at hrun₂
  rw [withConstant_plainLocals, isClose_plainLocals, run_bind, run_declare ns hfuncs] at hrun₂
  cases hrun₂
  have hflags : (plainLocals ns).map (fun l => (l.name, isClose l.binding)) = ns.map fun w => (w, false) := by
    rw [plainLocals, List.map_map]
    rfl
  exact ⟨_, _, by rw [hflags], rfl⟩

/-- A declaration declares the names that are listed, up to a place where no statement or another one begins. -/
theorem localStmt_listed (hfuncs : s.funcs = f :: rest) (h : Listed s.tokens names)
    (hrun : (localStmt n).run s = .ok (ss, s')) : ∃ ns more values line, names = ns ++ more ∧
      ss = [.locals (ns.map fun w => (w, false)) values line] ∧ s'.funcs = withLocals ns f rest ∧
        (more = [] ∨ Stray s'.tokens ∨ ∃ w, headToken s'.tokens = .name w) := by
  cases n with
  | zero =>
    rw [localStmt] at hrun
    cases hrun
  | succ n =>
    rw [localStmt_succ] at hrun
    obtain ⟨ls, s₁, hnames, hrun₁⟩ := run_bind_eq_ok hrun
    obtain ⟨ns, more, rfl, rfl, hlisted, hcomma⟩ := attributedNames_listed h hnames
    have hkeeps : Keeps id (attributedNames n false) := keeps_attributedNames n false
    have hfuncs₁ : s₁.funcs = f :: rest := (hkeeps _ _ _ hnames).trans hfuncs
    obtain ⟨b, s₂, htest, hrun₂⟩ := run_bind_eq_ok (p := testSym .assign) hrun₁
    rcases testNext_eq_ok htest with ⟨rfl, hassign, hadvance⟩ | ⟨rfl, hassign, rfl⟩
    · obtain ⟨values, s₃, hvalues, hrun₃⟩ := run_bind_eq_ok hrun₂
      have hkeeps : Keeps id advance := keeps_advance
      have hfuncs₂ : s₂.funcs = f :: rest := (hkeeps _ _ _ hadvance).trans hfuncs₁
      have hfuncs₃ : s₃.funcs = f :: rest := ((scoping n).exprList _ _ _ hvalues).trans hfuncs₂
      obtain ⟨values', line, hss, hs'⟩ := run_declareLocals hfuncs₃ hrun₃
      refine ⟨ns, more, values', line, rfl, hss, hs', ?_⟩
      rcases hlisted.head hcomma with ⟨b, hb⟩ | ⟨hnil, -⟩ | ⟨w, hw⟩
      · cases hassign.symm.trans hb
      · exact .inl hnil
      · cases hassign.symm.trans hw
    · obtain ⟨values', line, hss, hs'⟩ := run_declareLocals hfuncs₁ hrun₂
      refine ⟨ns, more, values', line, rfl, hss, hs', ?_⟩
      rw [(silent_declareLocals (plainLocals ns) [] _ _ _ hrun₂).1]
      rcases hlisted.head hcomma with hstray | ⟨hnil, -⟩ | hname
      · exact .inr (.inl hstray)
      · exact .inl hnil
      · exact .inr (.inr hname)

/-- A local function declares its name. -/
theorem localFunction_eq_ok (hfuncs : s.funcs = f :: rest) (hrun : (localFunction n).run s = .ok (ss, s')) :
    ∃ c ts w g, s.tokens = c :: ts ∧ c.token = .name w ∧ ss = [.localFunction g] ∧ s'.funcs = withLocals [w] f rest := by
  cases n with
  | zero =>
    rw [localFunction] at hrun
    cases hrun
  | succ n =>
    rw [localFunction] at hrun
    obtain ⟨w, s₁, hname, hrun₁⟩ := run_bind_eq_ok hrun
    obtain ⟨c, ts, hs, hc, rfl⟩ := expectName_eq_ok hname
    obtain ⟨_, s₂, hcheck, hrun₂⟩ := run_bind_eq_ok hrun₁
    obtain rfl := looks_checkLocals _ _ _ _ hcheck
    have hdeclare := run_declare (s := s.behind c ts) [w] hfuncs
    obtain ⟨_, s₃, hdeclare', hrun₃⟩ := run_bind_eq_ok (p := declare (plainLocals [w])) hrun₂
    cases hdeclare.symm.trans hdeclare'
    obtain ⟨line, s₄, hline, hrun₄⟩ := run_bind_eq_ok hrun₃
    obtain rfl := looks_currentLine _ _ _ hline
    obtain ⟨g, s₅, hbody, hpure⟩ := run_bind_eq_ok hrun₄
    cases hpure
    exact ⟨c, ts, w, g, hs, hc, rfl, (scoping n).funcBody _ _ _ _ _ hbody⟩

/-- A statement that begins with `local` is a function or a list of names. -/
theorem statement_local {l : Lexeme} {ts : List Lexeme} (hs : s.tokens = l :: ts) (hl : l.token = .word .kLocal)
    (hrun : (statement n).run s = .ok (ss, s')) :
    (∃ c ts' m, ts = c :: ts' ∧ c.token = .word .kFunction ∧
        (localFunction m).run ((s.behind l ts).behind c ts') = .ok (ss, s')) ∨
      headToken ts ≠ .word .kFunction ∧ ∃ m, (localStmt m).run (s.behind l ts) = .ok (ss, s') := by
  cases n with
  | zero =>
    rw [statement] at hrun
    cases hrun
  | succ n =>
    rw [statement, run_bind, run_currentLine_cons hs] at hrun
    change StateT.run (currentToken >>= _) s = _ at hrun
    rw [run_bind, run_currentToken, hs, headToken_cons, hl] at hrun
    obtain ⟨_, s₁, hadvance, hrun₁⟩ := run_bind_eq_ok (p := Parser.advance) hrun
    have hne : headToken s.tokens ≠ .eof := by
      rw [hs, headToken_cons, hl]
      simp
    obtain ⟨l', ts', hs', -, -, rfl⟩ := advance_eq_ok hne hadvance
    obtain ⟨rfl, rfl⟩ := List.cons.inj (hs.symm.trans hs')
    obtain ⟨b, s₂, htest, hrun₂⟩ := run_bind_eq_ok hrun₁
    rcases testNext_eq_ok htest with ⟨rfl, hfunction, hadvance'⟩ | ⟨rfl, hfunction, rfl⟩
    · obtain ⟨c, ts', hts, -, -, rfl⟩ := advance_eq_ok (by rw [hfunction]; simp) hadvance'
      obtain rfl : ts = c :: ts' := hts
      exact .inl ⟨c, ts', n, rfl, hfunction, hrun₂⟩
    · exact .inr ⟨hfunction, n, hrun₂⟩

/-- The tokens begin with `local` and the names `names`, or with `local function` and the one name. A stray byte may
stand among them. -/
def Opens (names : List Bytes) : List Lexeme → Prop :=
  Next (· = .word .kLocal) fun ts => Listed ts names ∨
    ∃ w, names = [w] ∧ Next (· = .word .kFunction) (fun ts => Stray ts ∨ headToken ts = .name w) ts

/-- A declaration of the variables `names` without attributes, with these initial values. -/
inductive Declares : Stmt → List Bytes → List Expr → Prop where
  | locals (names : List Bytes) (values : List Expr) (line : Nat) :
      Declares (.locals (names.map fun w => (w, false)) values line) names values
  | function (f : Func) (name : Bytes) : Declares (.localFunction f) [name] []

/-- Nothing is left of a program that has no more statements but semicolons. -/
theorem Yields.not_name (h : Yields s []) {w : Bytes} : headToken s.tokens ≠ .name w := by
  intro hw
  rcases h.cases with ⟨heof, -⟩ | ⟨hret, -⟩ | ⟨-, -, n, ss, s', more, hrun, hbody, -⟩
  · cases hw.symm.trans heof
  · cases hw.symm.trans hret
  · obtain ⟨rfl, -⟩ := List.append_eq_nil_iff.1 hbody.symm
    obtain ⟨s₁, hstatement, -⟩ := nested_eq_ok hrun
    have hsemi := semi_of_statement_nil (s := s.atLevel (s.level + 1)) hstatement
    cases hw.symm.trans hsemi

theorem Yields.not_stray {body : List Stmt} (h : Yields s body) : ¬ Stray s.tokens := by
  rintro ⟨b, hb⟩
  exact not_completes_of_head (by rw [hb]; rfl) (by rw [hb]; simp) (by rw [hb]; simp) (completes_iff.2 ⟨body, h⟩)

/-- A list of variables that is all of a program declares the names with which it opens. -/
theorem declares_of_localStmt {ts₀ : List Lexeme} {names' : List Bytes} {values : List Expr} {more : List Stmt}
    (hfuncs : s.funcs = f :: rest) (hrun : (localStmt n).run s = .ok (ss, s'))
    (hmore : Yields (s'.atLevel (s'.level - 1)) more) (hdecl : IsDeclaration ts₀ (ss ++ more) names values)
    (hlisted : Listed s.tokens names') :
    names' = names ∧ more = [] ∧ s'.funcs = withLocals names f rest ∧ ∃ d, ss = [d] ∧ Declares d names values := by
  obtain ⟨ns, more', values', line, rfl, rfl, hfuncs', hrest⟩ := localStmt_listed hfuncs hlisted hrun
  obtain ⟨rfl, rfl, rfl⟩ : names = ns ∧ values = values' ∧ more = [] := by
    change IsDeclaration _ (.locals _ _ _ :: more) names values at hdecl
    generalize hflags : ns.map (fun w => (w, false)) = flags at hdecl
    cases hdecl with
    | locals =>
      rw [← hflags, List.map_map]
      exact ⟨List.map_id ns, rfl, rfl⟩
  refine ⟨?_, rfl, hfuncs', _, rfl, .locals names values line⟩
  rcases hrest with rfl | hstray | ⟨w, hw⟩
  · exact List.append_nil names
  · exact absurd hstray hmore.not_stray
  · exact absurd hw hmore.not_name

/-- What opens with a local function declares its name. -/
theorem Opens.function {l c a : Lexeme} {ts : List Lexeme} {w : Bytes} {names : List Bytes}
    (h : Opens names (l :: c :: a :: ts)) (hc : c.token = .word .kFunction) (ha : a.token = .name w) : names = [w] := by
  obtain ⟨l', ts', hl', -, hopens⟩ := h
  obtain ⟨rfl, rfl⟩ := List.cons.inj hl'
  rcases hopens with hlisted | ⟨w', rfl, c', ts₂, hc', -, hname⟩
  · cases hlisted with
    | stray h =>
      obtain ⟨b, hb⟩ := h
      cases hc.symm.trans hb
    | last h =>
      rcases h with h | h
      · cases hc.symm.trans h
      · cases hc.symm.trans h
    | comma hl' => cases hc.symm.trans hl'
    | name hl' => cases hc.symm.trans hl'
  · obtain ⟨rfl, rfl⟩ := List.cons.inj hc'
    rcases hname with ⟨b, hb⟩ | hname
    · cases ha.symm.trans hb
    · cases ha.symm.trans hname
      rfl

/-- A declaration that is all of a program declares the names with which it opens. -/
theorem declares_of_statement {l : Lexeme} {ts : List Lexeme} {names' : List Bytes} {values : List Expr}
    {more : List Stmt} (hs : s.tokens = l :: ts) (hfuncs : s.funcs = f :: rest)
    (hrun : (statement n).run s = .ok (ss, s')) (hmore : Yields (s'.atLevel (s'.level - 1)) more)
    (hdecl : IsDeclaration (l :: ts) (ss ++ more) names values) (hopens : Opens names' (l :: ts)) :
    names' = names ∧ more = [] ∧ s'.funcs = withLocals names f rest ∧ ∃ d, ss = [d] ∧ Declares d names values := by
  obtain ⟨l', ts', hl', hl, hlisted⟩ := id hopens
  obtain ⟨rfl, rfl⟩ := List.cons.inj hl'
  rcases statement_local hs hl hrun with ⟨c, ts', m, rfl, hc, hfunction⟩ | ⟨hne, m, hlocals⟩
  · obtain ⟨a, ts'', w, g, hs', ha, rfl, hfuncs'⟩ :=
      localFunction_eq_ok (s := (s.behind l (c :: ts')).behind c ts') hfuncs hfunction
    obtain rfl : ts' = a :: ts'' := hs'
    obtain ⟨rfl, rfl, rfl⟩ : names = [w] ∧ values = [] ∧ more = [] := by
      change IsDeclaration _ (.localFunction g :: more) names values at hdecl
      cases hdecl with
      | function hname => cases ha.symm.trans (Option.some.inj hname); exact ⟨rfl, rfl, rfl⟩
    exact ⟨hopens.function hc ha, rfl, hfuncs', _, rfl, .function g w⟩
  · rcases hlisted with hlisted | ⟨w, -, hfunction⟩
    · exact declares_of_localStmt (s := s.behind l ts) hfuncs hlocals hmore hdecl hlisted
    · exact absurd hfunction.head hne

/-- A declaration does not begin like an expression. -/
theorem IsDeclaration.not_place {source : Bytes} {ts : List Lexeme} {body : List Stmt} {values : List Expr}
    (h : Yields (entry source ts) body) (hdecl : IsDeclaration ts body names values) :
    beginsPlace (headToken ts) = false := by
  refine Bool.eq_false_iff.2 fun hplace => ?_
  rcases h.cases with ⟨heof, -⟩ | ⟨hret, -⟩ | ⟨-, -, n, ss, s, more, hrun, rfl, -⟩
  · rw [show headToken ts = .eof from heof] at hplace
    cases hplace
  · rw [show headToken ts = .word .kReturn from hret] at hplace
    cases hplace
  · obtain ⟨s₁, hstatement, -⟩ := nested_eq_ok hrun
    obtain ⟨m, full, s₂, -, ⟨targets, values', rfl, -⟩ | ⟨-, -, -, rfl, -⟩⟩ :=
      statement_place (s := inside source ts) hplace hstatement
    · cases hdecl
    · cases hdecl

/-- The scopes behind a program that is one declaration. -/
def declaredScopes (names : List Bytes) : List FuncScope :=
  withLocals names { mainScope with blocks := [⟨false, 0, [], [], false⟩] } []

/-- A program that is one declaration declares the names with which it opens, and what stands behind it is read with
just these in scope. -/
theorem IsDeclaration.before {source : Bytes} {T E : List Lexeme} {body : List Stmt} {names' : List Bytes}
    {values : List Expr} (hE : headToken E = .eof) (heof : ∀ l ∈ T, l.token ≠ .eof)
    (h : Yields (entry source (T ++ E)) body) (hdecl : IsDeclaration (T ++ E) body names values)
    (hopens : Opens names' (T ++ E)) :
    names' = names ∧ ∃ d, Declares d names values ∧ ∀ A, Inert (headToken A) →
      ∃ s, s.tokens = A ∧ TopLevel s ∧ s.funcs = declaredScopes names ∧
        ∀ lines, Yields s lines → Yields (entry source (T ++ A)) (d :: lines) := by
  have hhead : headToken (T ++ E) = .word .kLocal := hopens.head
  obtain ⟨l, T, rfl⟩ : ∃ l T', T = l :: T' := by
    cases T with
    | nil => cases hE.symm.trans hhead
    | cons l T => exact ⟨l, T, rfl⟩
  have hl : l.token = .word .kLocal := hhead
  rcases h.cases with ⟨heof', -⟩ | ⟨hret, -⟩ | ⟨-, -, n, ss, s', more, hrun, rfl, hmore⟩
  · cases hhead.symm.trans heof'
  · cases hhead.symm.trans hret
  obtain ⟨s₁, hstatement, rfl⟩ := nested_eq_ok hrun
  obtain ⟨rfl, rfl, hfuncs, d, rfl, hd⟩ := declares_of_statement (s := inside source (l :: T ++ E)) rfl rfl hstatement
    hmore hdecl hopens
  refine ⟨rfl, d, hd, fun A hA => ?_⟩
  obtain ⟨C, hC, -, -, -, hCeof, -⟩ := (grammar n).anyStatement.nested _ _ _ trivial hrun
  obtain ⟨T', hT, hs'⟩ := append_eq_before_eof hC hCeof hE
  have hEi : Inert (headToken E) := by rw [hE]; trivial
  obtain ⟨m, hrunA⟩ := statement_before (s := entry source []) hrun hT hs' hEi hA (.inl (by rw [hl]; simp))
  -- what is left of the program are semicolons
  have htop₀ : TopLevel (entry source (l :: T ++ E)) := ⟨rfl, rfl, outline_entry source _⟩
  have htop : TopLevel (s₁.atLevel (s₁.level - 1)) := htop₀.statement hrun
  have hsemi := hmore.semicolons hE hs' htop.failure fun l' hl' => heof l' (by rw [hT]; simp [hl'])
  obtain ⟨s, hs, hfuncs', htop', hlines⟩ := yields_semicolons rfl (htop.before (T' ++ A)) hsemi
  refine ⟨s, hs, htop', hfuncs'.trans hfuncs, fun lines h => ?_⟩
  have hhead : headToken (entry source (l :: T ++ A)).tokens = .word .kLocal := hl
  exact .of_statement (s := entry source (l :: T ++ A)) rfl (by rw [hhead]; rfl) (by rw [hhead]; simp) hrunA (hlines lines h)

end Declarations

/-! ## The declared names in use -/

section Scopes

variable {names : List Bytes} {w : Bytes} {e : Expr}

theorem locals_declaredScopes (names : List Bytes) :
    ∃ f, declaredScopes names = [f] ∧ f.locals = (plainLocals names).reverse :=
  ⟨_, rfl, List.append_nil _⟩

theorem findLocal_plainLocals (hw : w ∈ names) : ∃ i, findLocal w (plainLocals names).reverse = some (i, .plain) := by
  have hsome : ((plainLocals names).reverse.findIdx? fun l => l.name == w).isSome = true := by
    rw [List.findIdx?_isSome, List.any_eq_true]
    exact ⟨⟨w, .plain⟩, List.mem_reverse.2 (List.mem_map_of_mem hw), beq_self_eq_true w⟩
  obtain ⟨i, hi⟩ := Option.isSome_iff_exists.1 hsome
  obtain ⟨hlt, -⟩ := List.findIdx?_eq_some_iff_getElem.1 hi
  have hplain : (plainLocals names).reverse[i].binding = .plain := by
    obtain ⟨w', -, h⟩ := List.mem_map.1 (List.mem_reverse.1 (List.getElem_mem hlt))
    rw [← h]
  refine ⟨i, ?_⟩
  rw [findLocal, hi, Option.bind_some, List.getElem?_eq_getElem hlt, Option.map_some, hplain]

theorem findLocal_eq_none (hw : w ∉ names) : findLocal w (plainLocals names).reverse = none := by
  have hnone : ((plainLocals names).reverse.findIdx? fun l => l.name == w) = none := by
    rw [List.findIdx?_eq_none_iff]
    intro l hl
    obtain ⟨w', hw', rfl⟩ := List.mem_map.1 (List.mem_reverse.1 hl)
    rw [beq_eq_false_iff_ne]
    rintro rfl
    exact hw hw'
  rw [findLocal, hnone]
  rfl

/-- A declared name is a variable. -/
theorem nameIn_declaredScopes (hw : w ∈ names) (hne : w ≠ bytes "_ENV") :
    ∃ v, ∀ e, Uses (declaredScopes names) w e → e = .var v := by
  obtain ⟨f, hF, hlocals⟩ := locals_declaredScopes names
  obtain ⟨i, hi⟩ := findLocal_plainLocals hw
  refine ⟨⟨w, 0 + i, false⟩, ?_⟩
  rintro e ⟨line, rfl⟩
  rw [nameIn, if_neg (by simpa using hne), declaredIn, hF, resolve, hlocals, hi]
  rfl

/-- The environment is the variable behind the declared ones. -/
theorem envIn_declaredScopes (henv : bytes "_ENV" ∉ names) (h : Uses (declaredScopes names) (bytes "_ENV") e) :
    e = .var ⟨bytes "_ENV", names.length, true⟩ := by
  obtain ⟨f, hF, hlocals⟩ := locals_declaredScopes names
  obtain ⟨line, rfl⟩ := h
  have hnone : declaredIn (declaredScopes names) (bytes "_ENV") = none := by
    rw [declaredIn, hF, resolve, hlocals, findLocal_eq_none henv]
    rfl
  have hlength : f.locals.length = names.length := by
    rw [hlocals, List.length_reverse, plainLocals, List.length_map]
  rw [nameIn, if_pos (beq_self_eq_true _), envIn, hnone, hF]
  dsimp only [List.foldl]
  rw [hlength, Nat.add_sub_cancel_left]
  rfl

/-- A name that is not declared is a field of the environment. -/
theorem nameIn_global (hw : w ≠ bytes "_ENV") (h : Uses (declaredScopes []) w e) :
    ∃ line, e = .index (.var ⟨bytes "_ENV", 0, true⟩) (.str w) line := by
  obtain ⟨line, rfl⟩ := h
  have hnone : declaredIn (declaredScopes []) w = none := rfl
  refine ⟨line, ?_⟩
  rw [nameIn, if_neg (by simpa using hw), hnone]
  rfl

end Scopes

end Scratchpad.Lua.Parser
