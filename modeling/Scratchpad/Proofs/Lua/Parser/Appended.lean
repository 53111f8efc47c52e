import Mathlib.Data.List.Forall2
import Scratchpad.Proofs.Lua.Parser.Program
import Scratchpad.Proofs.Lua.Parser.Seam

/-!
# Statements behind a program

Lines that copy and return variables are read behind any program, and as the statements that they look like. Main
statements: the lines complete a program if no jump is left (`neutral_lines`), and what they yield are the uses of their
names in the scopes that the program leaves (`yields_lines`).
-/

namespace Scratchpad.Lua.Parser

variable {α β : Type}

/-! ## What names stand for -/

/-- The variable or constant that a name stands for in the scopes `F`, if they declare it. -/
def declaredIn (F : List FuncScope) (name : Bytes) : Option (Expr × Binding) :=
  match resolve name 0 false F with
  | some (v, b) =>
    match b with
    | .value e => some (e, b)
    | b => some (.var v, b)
  | none => none

/-- The environment in the scopes `F`. -/
def envIn (F : List FuncScope) : Expr :=
  match declaredIn F (bytes "_ENV") with
  | some (e, _) => e
  | none => .var ⟨bytes "_ENV", F.foldl (fun n fs => n + fs.locals.length) 1 - 1, true⟩

/-- A name as an expression in the scopes `F`. -/
def nameIn (F : List FuncScope) (name : Bytes) : Expr :=
  if name == bytes "_ENV" then envIn F
  else match declaredIn F name with
    | some (e, _) => e
    | none => .index (envIn F) (.str name) 0

theorem run_declared? (name : Bytes) (s : State) : (declared? name).run s = .ok (declaredIn s.funcs name, s) := by
  have hget : (get : Parse State).run s = .ok (s, s) := rfl
  rw [declared?, run_bind, hget, declaredIn]
  dsimp only [Except.bind]
  rcases resolve name 0 false s.funcs with _ | ⟨v, b⟩
  · rfl
  · cases b <;> rfl

theorem run_envExpr (s : State) : envExpr.run s = .ok (envIn s.funcs, s) := by
  rw [envExpr, run_bind, run_declared?, envIn]
  rcases declaredIn s.funcs (bytes "_ENV") with _ | ⟨e, b⟩ <;> rfl

theorem run_nameExpr (name : Bytes) (s : State) : (nameExpr name).run s = .ok (nameIn s.funcs name, s) := by
  rw [nameExpr, nameIn]
  split
  · exact run_envExpr s
  · rw [run_bind, run_declared?]
    rcases declaredIn s.funcs name with _ | ⟨e, b⟩
    · change StateT.run (envExpr >>= _) s = _
      rw [run_bind, run_envExpr]
      rfl
    · rfl

/-- The expression is a use of the name, on some line. -/
def Uses (F : List FuncScope) (name : Bytes) (e : Expr) : Prop :=
  ∃ line, e = (nameIn F name).settle line

theorem settle_settle (e : Expr) (line line' : Nat) : ∃ l, (e.settle line).settle line' = e.settle l := by
  cases e with
  | index o k l =>
    cases l with
    | zero =>
      cases line with
      | zero => exact ⟨line', rfl⟩
      | succ line => exact ⟨line + 1, rfl⟩
    | succ l => exact ⟨line, rfl⟩
  | _ => exact ⟨line, rfl⟩

theorem settle_zero (e : Expr) : e.settle 0 = e := by
  cases e with
  | index o k l => cases l <;> rfl
  | _ => rfl

theorem uses_nameIn (F : List FuncScope) (name : Bytes) : Uses F name (nameIn F name) :=
  ⟨0, (settle_zero _).symm⟩

theorem Uses.settle {F : List FuncScope} {name : Bytes} {e : Expr} (h : Uses F name e) (line : Nat) :
    Uses F name (e.settle line) := by
  obtain ⟨l, rfl⟩ := h
  exact settle_settle _ l line

/-! ## Readers that succeed -/

/-- At the tokens `ts` and in the scopes `F` the reader succeeds with a result in `R` and leaves the tokens `ts'`, if `d`
more levels of nesting are allowed; it leaves the scopes as they were. -/
def Gives (F : List FuncScope) (p : Parse α) (ts ts' : List Lexeme) (R : α → Prop) (d : Nat) : Prop :=
  ∀ s, s.tokens = ts → s.funcs = F → s.failure = none → s.level + d < maxLevels →
    ∃ r s', p.run s = .ok (r, s') ∧ s'.tokens = ts' ∧ R r ∧ s'.failure = none ∧ s'.level = s.level ∧
      s'.funcs = F

/-- The action looks at the state and succeeds. -/
def Sees (a : Parse α) : Prop :=
  ∀ s, ∃ r, a.run s = .ok (r, s)

section Rules

variable {F : List FuncScope} {ts ts₁ ts' : List Lexeme} {R : α → Prop} {R' : β → Prop} {d : Nat} {p : Parse α}

theorem Gives.bind {q : α → Parse β} (hp : Gives F p ts ts₁ R d) (hq : ∀ r, R r → Gives F (q r) ts₁ ts' R' d) :
    Gives F (p >>= q) ts ts' R' d := by
  intro s hs hF hf hd
  obtain ⟨r₁, s₁, hrun₁, hs₁, hr₁, hf₁, hl₁, hF₁⟩ := hp s hs hF hf hd
  obtain ⟨r, s', hrun, hs', hr, hf', hl, hF'⟩ := hq r₁ hr₁ s₁ hs₁ hF₁ hf₁ (by rw [hl₁]; exact hd)
  exact ⟨r, s', by rw [run_bind, hrun₁]; exact hrun, hs', hr, hf', hl.trans hl₁, hF'⟩

theorem Gives.pure {r : α} (hr : R r) : Gives F (Pure.pure r : Parse α) ts ts R d :=
  fun s hs hF hf _ => ⟨r, s, rfl, hs, hr, hf, rfl, hF⟩

/-- A reader that gives more than is asked for. -/
theorem Gives.imp {R₁ : α → Prop} (h : Gives F p ts ts' R₁ d) (hR : ∀ r, R₁ r → R r) : Gives F p ts ts' R d := by
  intro s hs hF hf hd
  obtain ⟨r, s', hrun, hs', hr, hrest⟩ := h s hs hF hf hd
  exact ⟨r, s', hrun, hs', hR r hr, hrest⟩

theorem Gives.peek {q : Token → Parse β} (h : Gives F (q (headToken ts)) ts ts' R' d) :
    Gives F (currentToken >>= q) ts ts' R' d := by
  intro s hs hF hf hd
  obtain ⟨r, s', hrun, hrest⟩ := h s hs hF hf hd
  refine ⟨r, s', ?_, hrest⟩
  rw [run_bind, run_currentToken, hs]
  exact hrun

theorem Gives.see {a : Parse α} {q : α → Parse β} (ha : Sees a) (h : ∀ r, Gives F (q r) ts ts' R' d) :
    Gives F (a >>= q) ts ts' R' d := by
  intro s hs hF hf hd
  obtain ⟨r₁, hrun₁⟩ := ha s
  obtain ⟨r, s', hrun, hrest⟩ := h r₁ s hs hF hf hd
  refine ⟨r, s', ?_, hrest⟩
  rw [run_bind, hrun₁]
  exact hrun

/-- A name is what it stands for. -/
theorem Gives.name {q : Expr → Parse β} {w : Bytes} (h : Gives F (q (nameIn F w)) ts ts' R' d) :
    Gives F (nameExpr w >>= q) ts ts' R' d := by
  intro s hs hF hf hd
  obtain ⟨r, s', hrun, hrest⟩ := h s hs hF hf hd
  refine ⟨r, s', ?_, hrest⟩
  rw [run_bind, run_nameExpr, hF]
  exact hrun

theorem gives_advance {l : Lexeme} (hl : l.token ≠ .eof) : Gives F advance (l :: ts) ts (fun _ => True) d := by
  intro s hs hF hf _
  exact ⟨(), s.behind l ts, run_advance hs hl fun _ => hf, rfl, trivial, hf, rfl, hF⟩

/-- A token at hand is read. -/
theorem Gives.advance {l : Lexeme} {q : Parse β} (hl : l.token ≠ .eof) (h : Gives F q ts ts' R' d) :
    Gives F (Parser.advance >>= fun _ => q) (l :: ts) ts' R' d :=
  (gives_advance hl).bind fun _ _ => h

theorem Gives.nested (h : Gives F p ts ts' R d) : Gives F (nested p) ts ts' R (d + 1) := by
  intro s hs hF hf hd
  obtain ⟨r, s', hrun, hs', hr, hf', hl, hF'⟩ := h { s with level := s.level + 1 } hs hF hf
    (show s.level + 1 + d < maxLevels by omega)
  refine ⟨r, { s' with level := s'.level - 1 }, ?_, hs', hr, hf', ?_, hF'⟩
  · rw [run_nested, if_neg (by omega), hrun]
    rfl
  · change s'.level - 1 = s.level
    rw [hl]
    rfl

theorem Gives.mono {d' : Nat} (h : Gives F p ts ts' R d) (hd : d ≤ d') : Gives F p ts ts' R d' :=
  fun s hs hF hf hl => h s hs hF hf (by omega)

theorem Gives.testNo {q : Bool → Parse β} {t : Token} (ht : headToken ts ≠ t) (h : Gives F (q false) ts ts' R' d) :
    Gives F (testNext t >>= q) ts ts' R' d := by
  rw [testNext, bind_assoc]
  refine .peek ?_
  rw [if_neg ht, pure_bind]
  exact h

theorem Gives.testYes {q : Bool → Parse β} {l : Lexeme} {t : Token} (hl : l.token = t) (ht : t ≠ .eof)
    (h : Gives F (q true) ts ts' R' d) : Gives F (testNext t >>= q) (l :: ts) ts' R' d := by
  rw [testNext, bind_assoc]
  refine .peek ?_
  rw [headToken_cons, if_pos hl, bind_assoc]
  exact .advance (hl ▸ ht) (by rw [pure_bind]; exact h)

theorem Gives.expect {q : Parse β} {l : Lexeme} {t : Token} (hl : l.token = t) (ht : t ≠ .eof)
    (h : Gives F q ts ts' R' d) : Gives F (expect t >>= fun _ => q) (l :: ts) ts' R' d := by
  rw [Parser.expect, check, bind_assoc, bind_assoc]
  refine .peek ?_
  rw [headToken_cons, if_neg (fun hne => hne hl), pure_bind]
  exact .advance (hl ▸ ht) h

theorem sees_lastLine : Sees lastLine := fun _ => ⟨_, rfl⟩

theorem sees_currentLine : Sees currentLine := fun _ => ⟨_, rfl⟩

theorem sees_func : Sees func := fun _ => ⟨_, rfl⟩

theorem sees_pure (r : α) : Sees (pure r : Parse α) := fun _ => ⟨r, rfl⟩

end Rules

/-! ## Lines that copy and return variables -/

/-- The tokens of a line that copies the variable `x` to a field of the variable `env`. -/
def copyTokens (env x : Bytes) : List Token :=
  [.name env, .sym .lbracket, .str x, .sym .rbracket, .sym .assign, .name x]

/-- The tokens of a line that returns variables. -/
def returnTokens (names : List Bytes) : List Token :=
  .word .kReturn :: (names.map Token.name).intersperse (.sym .comma)

/-- The statements of lines that copy the variables `copies` to fields of the variable `env` and return the variables
`names`. -/
inductive IsLines (F : List FuncScope) (env : Bytes) (names : List Bytes) : List Bytes → List Stmt → Prop where
  | returned {es tail} (hes : List.Forall₂ (Uses F) names es) : IsLines F env names [] [.ret es tail]
  | copied {x o e line copies ss} (ho : Uses F env o) (he : Uses F x e) (h : IsLines F env names copies ss) :
      IsLines F env names (x :: copies) (.assign [.index o (.str x) line] [e] :: ss)

/-- Where the value of a variable ends. -/
def Quiet (t : Token) : Prop :=
  Inert t ∨ t = .sym .comma

theorem Quiet.infixOf {t : Token} (h : Quiet t) : infixOf t = none := by
  rcases h with h | rfl
  · exact infixOf_inert h
  · rfl

section Values

variable {F : List FuncScope} {ts : List Lexeme} {n : Nat}

theorem gives_suffixes (h : Quiet (headToken ts)) (e : Expr) : Gives F (suffixes (n + 1) e) ts ts (· = e) 0 := by
  rw [suffixes]
  refine .peek ?_
  generalize headToken ts = t at h
  rcases h with h | rfl
  · exact h.cases (.pure rfl) (fun _ => .pure rfl) (.pure rfl) (.pure rfl)
  · exact .pure rfl

theorem gives_operators (h : infixOf (headToken ts) = none) (limit : Nat) (e : Expr) :
    Gives F (operators (n + 1) limit e) ts ts (· = e) 0 := by
  rw [operators]
  refine .peek ?_
  rw [h]
  exact .pure rfl

/-- A variable. -/
theorem gives_primary {l : Lexeme} {w : Bytes} (hl : l.token = .name w) :
    Gives F (primary (n + 1)) (l :: ts) ts (·.1 = nameIn F w) 0 := by
  rcases l with ⟨t, raw, line⟩
  obtain rfl : t = .name w := hl
  rw [primary]
  exact .peek (.advance (by simp) (.name (.pure rfl)))

/-- The value of a variable. -/
theorem gives_variable {l : Lexeme} {w : Bytes} (hl : l.token = .name w) (h : Quiet (headToken ts)) (limit : Nat) :
    Gives F (subExpr (n + 4) limit) (l :: ts) ts (· = nameIn F w) 1 := by
  rcases l with ⟨t, raw, line⟩
  obtain rfl : t = .name w := hl
  have hsuffixed : Gives F (suffixed (n + 2)) (⟨.name w, raw, line⟩ :: ts) ts (· = nameIn F w) 0 := by
    rw [suffixed]
    refine (gives_primary rfl).bind ?_
    rintro ⟨_, name?⟩ rfl
    exact gives_suffixes h (nameIn F w)
  have hsimple : Gives F (simpleExpr (n + 3)) (⟨.name w, raw, line⟩ :: ts) ts (· = nameIn F w) 0 := by
    rw [simpleExpr]
    exact .peek hsuffixed
  rw [subExpr]
  refine .nested (.peek (hsimple.bind ?_))
  rintro _ rfl
  exact gives_operators h.infixOf limit _

/-- The value of a string. -/
theorem gives_string {l : Lexeme} {x : Bytes} (hl : l.token = .str x) (h : infixOf (headToken ts) = none) (limit : Nat) :
    Gives F (subExpr (n + 2) limit) (l :: ts) ts (· = .str x) 1 := by
  rcases l with ⟨t, raw, line⟩
  obtain rfl : t = .str x := hl
  have hsimple : Gives F (simpleExpr (n + 1)) (⟨.str x, raw, line⟩ :: ts) ts (· = .str x) 0 := by
    rw [simpleExpr]
    exact .peek (.advance (by simp) (.pure rfl))
  rw [subExpr]
  refine .nested (.peek (hsimple.bind ?_))
  rintro _ rfl
  exact gives_operators h limit _

/-- The values of variables. -/
theorem gives_exprList (hend : Quiet (headToken ts)) (hcomma : headToken ts ≠ .sym .comma) :
    ∀ {names : List Bytes} {C : List Lexeme}, names ≠ [] →
      C.map Lexeme.token = (names.map Token.name).intersperse (.sym .comma) →
      Gives F (exprList (n + names.length + 4)) (C ++ ts) ts (List.Forall₂ (Uses F) names) 1
  | [w], C, _, hC => by
    obtain ⟨l, C, rfl, hl, hnil⟩ := List.map_eq_cons_iff.1 hC
    obtain rfl := List.map_eq_nil_iff.1 hnil
    rw [exprList]
    refine (gives_variable hl hend 0).bind ?_
    rintro _ rfl
    exact .testNo hcomma (.pure (.cons (uses_nameIn F w) .nil))
  | w :: w' :: names, C, _, hC => by
    obtain ⟨l, C, rfl, hl, hC⟩ := List.map_eq_cons_iff.1 hC
    obtain ⟨c, C, rfl, hc, hC⟩ := List.map_eq_cons_iff.1 hC
    have hmore := gives_exprList hend hcomma (List.cons_ne_nil w' names) hC
    have hquiet : Quiet (headToken (c :: (C ++ ts))) := .inr hc
    rw [exprList]
    refine (gives_variable hl hquiet 0).bind ?_
    rintro _ rfl
    refine .testYes hc (by simp) (.see sees_lastLine fun line => hmore.bind fun es hes => .pure ?_)
    exact .cons ((uses_nameIn F w).settle line) hes

/-- A field of a variable, given by a key in brackets. -/
theorem gives_place {b k c : Lexeme} {x : Bytes} (hb : b.token = .sym .lbracket) (hk : k.token = .str x)
    (hc : c.token = .sym .rbracket) (hend : headToken ts = .sym .assign) (e : Expr) :
    Gives F (suffixes (n + 4) e) (b :: k :: c :: ts) ts (fun r => ∃ line, r = .index (e.settle line) (.str x) 0) 1 := by
  rcases b with ⟨t, raw, line⟩
  obtain rfl : t = .sym .lbracket := hb
  have hkey : Gives F (bracketKey (n + 3)) (⟨.sym .lbracket, raw, line⟩ :: k :: c :: ts) ts (· = .str x) 1 := by
    rw [bracketKey]
    have hinfix : infixOf (headToken (c :: ts)) = none := by
      rw [headToken_cons, hc]
      rfl
    refine .advance (by simp) ((gives_string hk hinfix 0).bind ?_)
    rintro _ rfl
    exact .see sees_lastLine fun _ => .expect hc (by simp) (.pure rfl)
  have hstop : ∀ e, Gives F (suffixes (n + 3) e) ts ts (· = e) 1 := fun e => by
    rw [suffixes]
    refine .peek ?_
    rw [hend]
    exact .pure rfl
  rw [suffixes]
  refine .peek (.see sees_lastLine fun line => hkey.bind ?_)
  rintro _ rfl
  exact (hstop _).imp fun r hr => ⟨line, hr⟩

/-- The variable that is assigned to a field. -/
theorem gives_assignment {a v : Lexeme} {x : Bytes} (ha : a.token = .sym .assign) (hv : v.token = .name x)
    (hend : Inert (headToken ts)) (o k : Expr) (line : Nat) :
    Gives F (assignment (n + 6) (.index o k line) none) (a :: v :: ts) ts (· = ([.index o k line], [nameIn F x])) 1 := by
  have hvalue : Gives F (exprList (n + 5)) (v :: ts) ts (· = [nameIn F x]) 1 := by
    rw [exprList]
    refine (gives_variable hv (.inl hend) 0).bind ?_
    rintro _ rfl
    exact .testNo (hend.ne_sym _) (.pure rfl)
  rw [assignment.eq_def]
  refine .see (sees_pure ()) fun _ => .testNo ?_ (.expect ha (by simp) (hvalue.bind ?_))
  · rw [headToken_cons, ha]
    simp
  · rintro _ rfl
    exact .pure rfl

/-- A line that copies a variable. -/
theorem gives_copy {C : List Lexeme} {env x : Bytes} (hC : C.map Lexeme.token = copyTokens env x)
    (hend : Inert (headToken ts)) : Gives F (nested (statement (n + 8))) (C ++ ts) ts
      (fun ss => ∃ o e line, Uses F env o ∧ Uses F x e ∧ ss = [.assign [.index o (.str x) line] [e]]) 3 := by
  obtain ⟨a, C, rfl, ha, hC⟩ := List.map_eq_cons_iff.1 hC
  obtain ⟨b, C, rfl, hb, hC⟩ := List.map_eq_cons_iff.1 hC
  obtain ⟨k, C, rfl, hk, hC⟩ := List.map_eq_cons_iff.1 hC
  obtain ⟨c, C, rfl, hc, hC⟩ := List.map_eq_cons_iff.1 hC
  obtain ⟨d, C, rfl, hd, hC⟩ := List.map_eq_cons_iff.1 hC
  obtain ⟨v, C, rfl, hv, hC⟩ := List.map_eq_cons_iff.1 hC
  obtain rfl := List.map_eq_nil_iff.1 hC
  rcases a with ⟨t, raw, line⟩
  obtain rfl : t = .name env := ha
  have hassign : headToken (d :: v :: ts) = .sym .assign := hd
  have hexpr : Gives F (exprStmt (n + 7)) (⟨.name env, raw, line⟩ :: b :: k :: c :: d :: v :: ts) ts
      (fun ss => ∃ o e line, Uses F env o ∧ Uses F x e ∧ ss = [.assign [.index o (.str x) line] [e]]) 1 := by
    rw [exprStmt]
    refine ((gives_primary rfl).mono (Nat.zero_le 1)).bind ?_
    rintro ⟨_, name?⟩ rfl
    refine (gives_place hb hk hc hassign (nameIn F env)).bind ?_
    rintro _ ⟨line, rfl⟩
    refine .peek ?_
    rw [hassign]
    refine (gives_assignment hd hv hend _ _ _).bind ?_
    rintro _ rfl
    refine .see sees_lastLine fun line' => .pure ?_
    exact ⟨_, _, line', (uses_nameIn F env).settle line, (uses_nameIn F x).settle line', rfl⟩
  have hstatement : Gives F (statement (n + 8)) (⟨.name env, raw, line⟩ :: b :: k :: c :: d :: v :: ts) ts
      (fun ss => ∃ o e line, Uses F env o ∧ Uses F x e ∧ ss = [.assign [.index o (.str x) line] [e]]) 1 := by
    rw [statement]
    exact .see sees_currentLine fun _ => .peek hexpr
  exact (hstatement.mono (by omega)).nested

/-- A line that returns variables. -/
theorem gives_return {C : List Lexeme} {names : List Bytes} (hC : C.map Lexeme.token = returnTokens names)
    (hnames : names ≠ []) (hend : headToken ts = .eof) :
    Gives F (nested (returnStmt (n + names.length + 5))) (C ++ ts) ts
      (fun r => ∃ es tail, List.Forall₂ (Uses F) names es ∧ r = .ret es tail) 2 := by
  obtain ⟨a, C, rfl, ha, hC⟩ := List.map_eq_cons_iff.1 hC
  have hquiet : Quiet (headToken ts) := .inl (by rw [hend]; trivial)
  have hvalues : Gives F (exprList (n + names.length + 4)) (C ++ ts) ts (List.Forall₂ (Uses F) names) 1 :=
    gives_exprList hquiet (by rw [hend]; simp) hnames hC
  obtain ⟨w, hw⟩ : ∃ w, headToken (C ++ ts) = .name w := by
    match names, hnames with
    | [w], _ =>
      obtain ⟨l, C, rfl, hl, -⟩ := List.map_eq_cons_iff.1 hC
      exact ⟨w, hl⟩
    | w :: w' :: names, _ =>
      obtain ⟨l, C, rfl, hl, -⟩ := List.map_eq_cons_iff.1 hC
      exact ⟨w, hl⟩
  rw [returnStmt, List.cons_append]
  refine .nested (.advance (by rw [ha]; simp) (.peek ?_))
  rw [hw]
  refine hvalues.bind fun values hes => .see sees_lastLine fun line => .testNo (by rw [hend]; simp) ?_
  refine .see sees_func fun _ => .pure ⟨_, _, ?_, rfl⟩
  exact List.forall₂_map_right_iff.2 (hes.imp fun _ _ he => he.settle line)

/-- A statement, and the statements behind it. -/
theorem Gives.statements {ts₁ ts' : List Lexeme} {R R₁ R₂ : List Stmt → Prop} {d : Nat}
    (h : Gives F (Parser.nested (statement n)) ts ts₁ R₁ d) (hends : endsBlock true (headToken ts) = false)
    (hret : headToken ts ≠ .word .kReturn) (hmore : Gives F (Parser.statements n) ts₁ ts' R₂ d)
    (hR : ∀ ss more, R₁ ss → R₂ more → R (ss ++ more)) : Gives F (Parser.statements (n + 1)) ts ts' R d := by
  rw [Parser.statements]
  refine .peek ?_
  rw [if_neg (by rw [hends]; simp), if_neg hret]
  exact h.bind fun ss hss => hmore.bind fun more hm => .pure (hR ss more hss hm)

theorem gives_statements_nil (h : endsBlock true (headToken ts) = true) (d : Nat) :
    Gives F (statements (n + 1)) ts ts (· = []) d := by
  rw [statements]
  refine .peek ?_
  rw [if_pos h]
  exact .pure rfl

/-- Nothing of an expression goes on with the lines. -/
theorem inert_lines {env : Bytes} {names copies : List Bytes} {A : List Lexeme}
    (hA : A.map Lexeme.token = copies.flatMap (copyTokens env) ++ (returnTokens names ++ [.eof])) :
    Inert (headToken A) := by
  cases copies with
  | nil =>
    obtain ⟨l, A, rfl, hl, -⟩ := List.map_eq_cons_iff.1 hA
    rw [headToken_cons, hl]
    trivial
  | cons y copies =>
    obtain ⟨l, A, rfl, hl, -⟩ := List.map_eq_cons_iff.1 hA
    rw [headToken_cons, hl]
    trivial

/-- Lines that copy and return variables. -/
theorem gives_lines {env : Bytes} {names : List Bytes} (hnames : names ≠ []) :
    ∀ {copies : List Bytes} {A : List Lexeme},
      A.map Lexeme.token = copies.flatMap (copyTokens env) ++ (returnTokens names ++ [.eof]) →
        ∃ E, headToken E = .eof ∧ ∀ F n, names.length + copies.length + 14 ≤ n →
          Gives F (statements n) A E (IsLines F env names copies) 3
  | [], A, hA => by
    obtain ⟨C, E, rfl, hC, hE⟩ := List.map_eq_append_iff.1 (hA.trans (List.nil_append _))
    have heof : headToken E = .eof := by
      obtain ⟨e, E, rfl, he, -⟩ := List.map_eq_cons_iff.1 hE
      exact he
    have hhead : headToken (C ++ E) = .word .kReturn := by
      obtain ⟨l, C, rfl, hl, -⟩ := List.map_eq_cons_iff.1 hC
      exact hl
    refine ⟨E, heof, fun F n hn => ?_⟩
    obtain ⟨k, rfl⟩ : ∃ k, n = k + names.length + 5 + 1 := ⟨n - names.length - 6, by omega⟩
    rw [statements]
    refine .peek ?_
    rw [hhead]
    refine ((gives_return hC hnames heof).mono (by omega)).bind ?_
    rintro _ ⟨es, tail, hes, rfl⟩
    exact .pure (.returned hes)
  | x :: copies, A, hA => by
    rw [List.flatMap_cons, List.append_assoc] at hA
    obtain ⟨C, A, rfl, hC, hA⟩ := List.map_eq_append_iff.1 hA
    have hhead : headToken (C ++ A) = .name env := by
      obtain ⟨l, C, rfl, hl, -⟩ := List.map_eq_cons_iff.1 hC
      exact hl
    obtain ⟨E, heof, hmore⟩ := gives_lines hnames hA
    refine ⟨E, heof, fun F n hn => ?_⟩
    rw [List.length_cons] at hn
    obtain ⟨k, rfl⟩ : ∃ k, n = k + 8 + 1 := ⟨n - 9, by omega⟩
    refine (gives_copy hC (inert_lines hA)).statements (by rw [hhead]; rfl) (by rw [hhead]; simp)
      (hmore F (k + 8) (by omega)) ?_
    rintro _ more ⟨o, e, line, ho, he, rfl⟩ hlines
    exact .copied ho he hlines

/-- What entering a block does. -/
def State.entered (s : State) (isLoop : Bool) : State :=
  { s with funcs := match s.funcs with
      | [] => []
      | f :: rest =>
        { f with blocks :=
            ⟨isLoop, f.locals.length, [], [], (f.blocks.head?.map BlockScope.insideClose).getD false⟩ :: f.blocks } ::
          rest }

theorem run_enterBlock (s : State) (isLoop : Bool) : (enterBlock isLoop).run s = .ok ((), s.entered isLoop) := by
  rcases s with ⟨tokens, failure, last, _ | ⟨f, rest⟩, level, source⟩ <;> rfl

/-- Nothing happens in a block without contents. -/
theorem run_leaveBlock_entered (s : State) : leaveBlock.run (s.entered false) = .ok ((), s) := by
  rcases s with ⟨tokens, failure, last, _ | ⟨⟨line, isMain, vararg, locals, _ | ⟨b, bs⟩⟩, rest⟩, level, source⟩
  · rfl
  · change Except.ok _ = _
    simp [State.entered]
  · change Except.ok _ = _
    simp [State.entered]

theorem gives_block (h : endsBlock true (headToken ts) = true) : Gives F (block (n + 2)) ts ts (fun _ => True) 0 := by
  intro s hs hF hf _
  have hstatements : ∀ s : State, s.tokens = ts → (statements (n + 1)).run s = .ok ([], s) := fun s hs => by
    rw [statements, run_bind, run_currentToken, hs]
    change StateT.run (if endsBlock true (headToken ts) = true then _ else _) s = _
    rw [if_pos h]
    rfl
  refine ⟨[], s, ?_, hs, trivial, hf, rfl, hF⟩
  rw [block, inBlock, run_bind, run_enterBlock]
  change StateT.run (statements (n + 1) >>= _) (s.entered false) = _
  rw [run_bind, hstatements (s.entered false) hs]
  change StateT.run (leaveBlock >>= _) (s.entered false) = _
  rw [run_bind, run_leaveBlock_entered]
  rfl

end Values

/-! ## Rests that complete a program -/

/-- The state is one between the statements of the main function. -/
structure TopLevel (s : State) : Prop where
  failure : s.failure = none
  level : s.level = 0
  scopes : outline s.funcs = ([], [[0]])

theorem TopLevel.before {s : State} (h : TopLevel s) (ts : List Lexeme) : TopLevel (s.before ts none) :=
  ⟨rfl, h.level, h.scopes⟩

theorem TopLevel.statement {s s' : State} {n : Nat} {ss : List Stmt} (h : TopLevel s)
    (hrun : (nested (statement n)).run s = .ok (ss, s')) : TopLevel s' := by
  obtain ⟨_, -, -, hfail, hlevel, -⟩ := (grammar n).anyStatement.nested s ss s' trivial hrun
  exact ⟨hfail.trans h.failure, hlevel.trans h.level, ((scoping n).statement.nested s ss s' hrun).trans h.scopes⟩

/-- Behind the statements of a program, these tokens complete it if no jump is left. -/
def Neutral (ts : List Lexeme) : Prop :=
  ∀ s, s.tokens = ts → TopLevel s → (Completes s ↔ escaping s.funcs = [])

/-- Statements that leave the scopes as they were complete a program if no jump is left. -/
theorem neutral_of_gives {A E : List Lexeme} {n d : Nat} {R : List FuncScope → List Stmt → Prop}
    (h : ∀ F, Gives F (statements n) A E (R F) d) (hd : d < maxLevels) (hE : headToken E = .eof) : Neutral A := by
  intro s hs htop
  obtain ⟨body, s', hrun, hs', -, -, -, hfuncs⟩ := h s.funcs s hs rfl htop.failure (by rw [htop.level]; omega)
  constructor
  · rintro ⟨m, body', s₁, hrun', -, hescaping⟩
    have hagree := (grammar n).statements.agree (grammar m).statements trivial trivial htop.failure hrun hrun'
    rwa [← hagree.2, hfuncs] at hescaping
  · intro hescaping
    exact ⟨n, body, s', hrun, by rw [hs']; exact hE, by rw [hfuncs]; exact hescaping⟩

/-- A block without contents. -/
theorem neutral_block {a b e : Lexeme} (ha : a.token = .word .kDo) (hb : b.token = .word .kEnd) (he : e.token = .eof) :
    Neutral [a, b, e] := by
  rcases a with ⟨t, raw, line⟩
  obtain rfl : t = .word .kDo := ha
  have hends : endsBlock true (headToken [b, e]) = true := by
    rw [headToken_cons, hb]
    rfl
  have hstatement : ∀ F, Gives F (statement 3) [⟨.word .kDo, raw, line⟩, b, e] [e] (fun _ => True) 0 := by
    intro F
    rw [statement]
    refine .see sees_currentLine fun _ => .peek (.advance (by simp) ((gives_block hends).bind fun _ _ => ?_))
    rw [expectMatch_eq, bind_assoc]
    refine .peek ?_
    rw [headToken_cons, if_pos hb]
    exact .advance (by rw [hb]; simp) (.pure trivial)
  have heof : endsBlock true (headToken [e]) = true := by
    rw [headToken_cons, he]
    rfl
  have hgives : ∀ F, Gives F (statements 4) [⟨.word .kDo, raw, line⟩, b, e] [e] (fun _ => True) 1 := fun F =>
    (hstatement F).nested.statements rfl (by simp) (gives_statements_nil heof 1) fun _ _ _ _ => trivial
  exact neutral_of_gives hgives (by decide) he

section Lines

variable {env : Bytes} {names copies : List Bytes} {A : List Lexeme}
  (hnames : names ≠ []) (hA : A.map Lexeme.token = copies.flatMap (copyTokens env) ++ (returnTokens names ++ [.eof]))

include hnames hA

/-- Lines that copy and return variables. -/
theorem neutral_lines : Neutral A := by
  obtain ⟨E, hE, hlines⟩ := gives_lines hnames hA
  exact neutral_of_gives (fun F => hlines F _ (Nat.le_refl _)) (by decide) hE

/-- Lines that copy and return variables yield the uses of their names. -/
theorem yields_lines {s : State} (hs : s.tokens = A) (htop : TopLevel s) (h : escaping s.funcs = []) :
    ∃ body, Yields s body ∧ IsLines s.funcs env names copies body := by
  obtain ⟨E, hE, hlines⟩ := gives_lines hnames hA
  obtain ⟨body, s', hrun, hs', hbody, -, -, hfuncs⟩ :=
    hlines s.funcs _ (Nat.le_refl _) s hs rfl htop.failure (by rw [htop.level]; decide)
  exact ⟨body, ⟨_, s', hrun, by rw [hs']; exact hE, by rw [hfuncs]; exact h⟩, hbody⟩

end Lines

end Scratchpad.Lua.Parser
