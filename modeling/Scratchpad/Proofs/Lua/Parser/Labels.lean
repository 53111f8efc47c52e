import Scratchpad.Proofs.Lua.Parser.Appended

/-!
# Labels at the end of a program

A label that only empty statements follow stands for the end of its block, so a label at the end of a program is not
declared in the same way if something follows. What follows only makes it harder to jump to the label: if a label can be
read before other tokens, then also before the end (`label_before_eof`).
-/

namespace Scratchpad.Lua.Parser

variable {α : Type}

/-! ## What a label adds to its block -/

section Solve

variable {s s' : State} {f : FuncScope} {b : BlockScope} {l : Label}

/-- The state in which a label of the only block is declared. -/
def State.labelled (s : State) (f : FuncScope) (b : BlockScope) (l : Label) : State :=
  { s with funcs := [{ f with blocks := [{ b with
      labels := b.labels ++ [l], pending := b.pending.filter fun g => g.name != l.name }] }] }

/-- Declares a label. -/
def addLabel (l : Label) : Parse Unit := do
  modifyBlock fun b => { b with labels := b.labels ++ [l] }
  solve l

theorem addLabel_eq_ok (hs : s.funcs = [f]) (hb : f.blocks = [b]) {r : Unit} (h : (addLabel l).run s = .ok (r, s')) :
    s' = s.labelled f b l := by
  rcases s with ⟨tokens, failure, last, funcs, level, source⟩
  obtain rfl : funcs = [f] := hs
  rcases f with ⟨line, isMain, vararg, locals, blocks⟩
  obtain rfl : blocks = [b] := hb
  obtain ⟨_, s₁, hlabel, h⟩ := run_bind_eq_ok h
  cases hlabel
  obtain ⟨_, s₂, hblock, h⟩ := run_bind_eq_ok h
  cases hblock
  obtain ⟨_, s₃, hloop, h⟩ := run_bind_eq_ok h
  obtain rfl := looks_forIn (fun g _ => .ite (looks_jumpsIntoScope.bind fun _ => .pure _) (.pure _)) _ _ _ _ _ hloop
  cases h
  rfl

theorem forIn_pure_yield {xs : List Pending} {g : Pending → PUnit → Parse (ForInStep PUnit)}
    (h : ∀ x r, g x r = pure (.yield r)) (r : PUnit) : forIn xs r g = pure r := by
  induction xs with
  | nil => rfl
  | cons x xs ih =>
    rw [List.forIn_cons, h, pure_bind]
    exact ih

/-- Every jump may lead to the beginning of the block. -/
theorem run_addLabel (hs : s.funcs = [f]) (hb : f.blocks = [b]) (hl : l.active = 0) :
    (addLabel l).run s = .ok ((), s.labelled f b l) := by
  rcases s with ⟨tokens, failure, last, funcs, level, source⟩
  obtain rfl : funcs = [f] := hs
  rcases f with ⟨line, isMain, vararg, locals, blocks⟩
  obtain rfl : blocks = [b] := hb
  have hloop : ∀ xs : List Pending, (forIn xs PUnit.unit fun g _ =>
      if (g.name == l.name && decide (g.active < l.active)) = true then do
        jumpsIntoScope g
        pure (.yield PUnit.unit)
      else pure (.yield PUnit.unit) : Parse PUnit) = pure () := fun xs =>
    forIn_pure_yield (fun g _ => if_neg (by rw [hl]; simp)) _
  rw [addLabel, run_bind]
  change StateT.run (solve l) _ = _
  rw [solve, run_bind]
  change StateT.run (forIn _ _ _ >>= _) _ = _
  rw [run_bind, hloop]
  rfl

/-- Declares a label behind the empty statements and labels that follow it. -/
def declareLabel (name : Bytes) (line : Nat) (skipped : List Stmt) : Parse (List Stmt) := do
  match ← findLabel name with
  | some l =>
    failHere (bytes "label '" ++ name ++ bytes ("' already defined on line " ++ toString l.line))
  | none => pure ()
  let fs ← func
  let blockActive := (fs.blocks.head?.map BlockScope.active).getD 0
  let active := if endsBlock false (← currentToken) then blockActive else fs.locals.length
  let depth := (← scopeDepth) - (fs.locals.length - active)
  addLabel ⟨name, line, active⟩
  return .label name depth :: skipped

theorem labelStmt_succ (n : Nat) (name : Bytes) (line : Nat) : labelStmt (n + 1) name line =
    expectSym .dcolon >>= fun _ => emptyStatements n >>= fun skipped => declareLabel name line skipped := by
  rw [labelStmt]
  refine congrArg (expectSym .dcolon >>= ·) (funext fun _ => congrArg (emptyStatements n >>= ·) (funext fun skipped => ?_))
  rw [declareLabel]
  refine congrArg (findLabel name >>= ·) (funext fun found => ?_)
  cases found with
  | some l => rfl
  | none => simp only [addLabel, bind_assoc]

theorem run_findLabel (hs : s.funcs = [f]) (hb : f.blocks = [b]) (name : Bytes) :
    (findLabel name).run s = .ok (b.labels.find? fun l => l.name == name, s) := by
  rw [findLabel, run_bind]
  change Except.ok ((s.funcs.headD mainScope).blocks.findSome? _, s) = _
  rw [hs, List.headD_cons, hb]
  cases h : b.labels.find? fun l => l.name == name <;> simp [List.findSome?, h]

theorem declareLabel_eq_ok (hs : s.funcs = [f]) (hb : f.blocks = [b]) {name : Bytes} {line : Nat} {skipped r : List Stmt}
    (h : (declareLabel name line skipped).run s = .ok (r, s')) :
    (b.labels.find? fun l => l.name == name) = none ∧ ∃ active, s' = s.labelled f b ⟨name, line, active⟩ := by
  rw [declareLabel, run_bind, run_findLabel hs hb] at h
  cases hfind : b.labels.find? fun l => l.name == name with
  | some l =>
    rw [hfind] at h
    cases h
  | none =>
    rw [hfind] at h
    refine ⟨rfl, ?_⟩
    obtain ⟨fs, s₁, hfunc, h⟩ := run_bind_eq_ok h
    cases hfunc
    obtain ⟨t, s₂, htoken, h⟩ := run_bind_eq_ok h
    obtain rfl := looks_currentToken _ _ _ htoken
    obtain ⟨depth, s₃, hdepth, h⟩ := run_bind_eq_ok h
    cases hdepth
    obtain ⟨_, s₄, hlabel, h⟩ := run_bind_eq_ok h
    cases h
    exact ⟨_, addLabel_eq_ok hs hb hlabel⟩

theorem run_declareLabel (hs : s.funcs = [f]) (hb : f.blocks = [b]) (hactive : b.active = 0) {name : Bytes}
    (hfind : (b.labels.find? fun l => l.name == name) = none) (heof : headToken s.tokens = .eof) (line : Nat)
    (skipped : List Stmt) :
    ∃ r, (declareLabel name line skipped).run s = .ok (r, s.labelled f b ⟨name, line, 0⟩) := by
  have hzero : ((s.funcs.headD mainScope).blocks.head?.map BlockScope.active).getD 0 = 0 := by
    rw [hs, List.headD_cons, hb]
    exact hactive
  refine ⟨.label name (s.funcs.foldl (fun n fs => n + fs.locals.length) 1 - ((s.funcs.headD mainScope).locals.length - 0)) ::
    skipped, ?_⟩
  rw [declareLabel, run_bind, run_findLabel hs hb, hfind]
  change StateT.run (func >>= _) s = _
  rw [run_bind]
  change StateT.run (currentToken >>= _) s = _
  rw [run_bind, run_currentToken, heof]
  change StateT.run (scopeDepth >>= _) s = _
  rw [run_bind]
  change StateT.run (addLabel ⟨name, line, ((s.funcs.headD mainScope).blocks.head?.map _).getD 0⟩ >>= _) s = _
  rw [hzero, run_bind, run_addLabel hs hb rfl]
  rfl

end Solve

/-! ## Scopes that differ in where their labels stand -/

/-- Scopes of a single block that are alike but for the places of their labels. -/
inductive Alike : List FuncScope → List FuncScope → Prop
  | mk (f : FuncScope) (b : BlockScope) (labels : List Label) (active : b.active = 0)
      (names : labels.map Label.name = b.labels.map Label.name) :
      Alike [{ f with blocks := [b] }] [{ f with blocks := [{ b with labels }] }]

theorem Alike.refl {fs : List FuncScope} (h : outline fs = ([], [[0]])) : Alike fs fs := by
  rcases fs with _ | ⟨⟨line, isMain, vararg, locals, blocks⟩, rest⟩
  · cases h
  · obtain ⟨hrest, hblocks⟩ := Prod.mk.inj h
    obtain rfl : rest = [] := hrest
    rcases blocks with _ | ⟨b, _ | ⟨_, _⟩⟩
    · simp at hblocks
    · exact .mk ⟨line, isMain, vararg, locals, []⟩ b b.labels (by simpa using hblocks) rfl
    · simp at hblocks

theorem Alike.escaping {fs fs₂ : List FuncScope} (h : Alike fs fs₂) : escaping fs₂ = escaping fs := by
  cases h
  rfl

theorem find_name_eq_none {name : Bytes} {ls ls' : List Label} (h : ls'.map Label.name = ls.map Label.name)
    (hfind : (ls.find? fun l => l.name == name) = none) : (ls'.find? fun l => l.name == name) = none := by
  have hmem : ∀ {ls : List Label}, (ls.find? fun l => l.name == name) = none ↔ name ∉ ls.map Label.name := by
    intro ls
    rw [List.find?_eq_none, List.mem_map]
    simp
  rw [hmem] at hfind ⊢
  rwa [h]

/-- A label can also be declared at the end of the program. -/
theorem Alike.declareLabel {s s₂ s' : State} {name : Bytes} {line : Nat} {skipped r : List Stmt}
    (h : Alike s.funcs s₂.funcs) (heof : headToken s₂.tokens = .eof)
    (hrun : (declareLabel name line skipped).run s = .ok (r, s')) (skipped₂ : List Stmt) :
    s'.tokens = s.tokens ∧ s'.failure = s.failure ∧ s'.level = s.level ∧
      ∃ r₂ s₂', (Parser.declareLabel name line skipped₂).run s₂ = .ok (r₂, s₂') ∧ s₂'.tokens = s₂.tokens ∧
        s₂'.failure = s₂.failure ∧ s₂'.level = s₂.level ∧ Alike s'.funcs s₂'.funcs := by
  generalize hs : s.funcs = fs at h
  generalize hs₂ : s₂.funcs = fs₂ at h
  obtain ⟨f, b, labels, hactive, hnames⟩ := h
  obtain ⟨hfind, active, rfl⟩ := declareLabel_eq_ok hs rfl hrun
  obtain ⟨r₂, hrun₂⟩ := run_declareLabel hs₂ rfl hactive (find_name_eq_none hnames hfind) heof line skipped₂
  refine ⟨rfl, rfl, rfl, r₂, _, hrun₂, rfl, rfl, rfl, ?_⟩
  exact .mk f { b with labels := b.labels ++ [⟨name, line, active⟩], pending := _ } (labels ++ [⟨name, line, 0⟩]) hactive
    (by simp [hnames])

/-! ## Labels before other tokens and before the end -/

/-- The tokens `C` are left before `A` in one state and before `E` in the other one, and the scopes are alike. -/
structure Twin (A E C : List Lexeme) (s s₂ : State) : Prop where
  tokens : s.tokens = C ++ A
  tokens₂ : s₂.tokens = C ++ E
  failure : s.failure = none
  failure₂ : s₂.failure = none
  level : s₂.level = s.level
  funcs : Alike s.funcs s₂.funcs

/-- The states behind a token. -/
theorem Twin.behind {A E C : List Lexeme} {s s₂ : State} {l : Lexeme} (h : Twin A E (l :: C) s s₂) :
    Twin A E C (s.behind l (C ++ A)) (s₂.behind l (C ++ E)) :=
  ⟨rfl, rfl, h.failure, h.failure₂, h.level, h.funcs⟩

theorem Twin.deeper {A E C : List Lexeme} {s s₂ : State} (h : Twin A E C s s₂) (d : Nat → Nat) :
    Twin A E C { s with level := d s.level } { s₂ with level := d s₂.level } :=
  ⟨h.tokens, h.tokens₂, h.failure, h.failure₂, congrArg d h.level, h.funcs⟩

section Labels

variable {s s' : State} {n : Nat} {r : List Stmt} {a c d : Lexeme} {ts : List Lexeme} {name : Bytes}

theorem run_expectName (hs : s.tokens = c :: ts) (hc : c.token = .name name) (hf : s.failure = none) :
    expectName.run s = .ok (name, s.behind c ts) := by
  rw [expectName, run_bind, run_currentToken, hs, headToken_cons, hc]
  change StateT.run (advance >>= _) s = _
  rw [run_bind, run_advance hs (by rw [hc]; simp) fun _ => hf]
  rfl

theorem expectName_eq_ok (h : expectName.run s = .ok (name, s')) :
    ∃ c ts, s.tokens = c :: ts ∧ c.token = .name name ∧ s' = s.behind c ts := by
  obtain ⟨t, s₁, htoken, h⟩ := run_bind_eq_ok h
  rw [run_currentToken] at htoken
  obtain ⟨rfl, rfl⟩ := Prod.mk.inj (Except.ok.inj htoken)
  split at h
  · rename_i w hw
    obtain ⟨_, s₂, hadvance, h⟩ := run_bind_eq_ok h
    cases h
    obtain ⟨c, ts, hs, -, -, rfl⟩ := advance_eq_ok (by rw [hw]; simp) hadvance
    rw [hs] at hw
    exact ⟨c, ts, hs, hw, rfl⟩
  · cases h

theorem run_expectSym {x : Sym} (hs : s.tokens = c :: ts) (hc : c.token = .sym x) (hf : s.failure = none) :
    (expectSym x).run s = .ok ((), s.behind c ts) := by
  have hcheck : (check (.sym x)).run s = .ok ((), s) := check_isOk_iff.2 ⟨by rw [hs]; exact hc, rfl⟩
  rw [expectSym, expect, run_bind, hcheck]
  exact run_advance hs (by rw [hc]; simp) fun _ => hf

theorem expectSym_eq_ok {x : Sym} {u : Unit} (h : (expectSym x).run s = .ok (u, s')) :
    ∃ c ts, s.tokens = c :: ts ∧ c.token = .sym x ∧ s' = s.behind c ts := by
  obtain ⟨_, s₁, hcheck, hadvance⟩ := run_bind_eq_ok h
  obtain ⟨hhead, hs₁⟩ := check_isOk_iff.1 hcheck
  obtain ⟨-, rfl⟩ := Prod.mk.inj hs₁
  obtain ⟨c, ts, hs, -, -, rfl⟩ := advance_eq_ok (by rw [hhead]; simp) hadvance
  rw [hs] at hhead
  exact ⟨c, ts, hs, hhead, rfl⟩

/-- The readers that a label runs through. -/
theorem statement_label (hs : s.tokens = a :: ts) (ha : a.token = .sym .dcolon) :
    (statement (n + 2)).run s = (advance >>= fun _ => expectName >>= fun name => expectSym .dcolon >>= fun _ =>
      emptyStatements n >>= fun skipped => declareLabel name a.line skipped : Parse (List Stmt)).run s := by
  rw [statement, run_bind, run_currentLine_cons hs]
  change StateT.run (currentToken >>= _) s = _
  rw [run_bind, run_currentToken, hs, headToken_cons, ha]
  refine congrFun (congrArg StateT.run (congrArg (advance >>= ·) (funext fun _ => congrArg (expectName >>= ·)
    (funext fun name => labelStmt_succ n name a.line)))) s

theorem run_label (hs : s.tokens = a :: c :: d :: ts) (ha : a.token = .sym .dcolon) (hc : c.token = .name name)
    (hd : d.token = .sym .dcolon) (hf : s.failure = none) :
    (statement (n + 2)).run s = (emptyStatements n >>= fun skipped => declareLabel name a.line skipped :
      Parse (List Stmt)).run (((s.behind a (c :: d :: ts)).behind c (d :: ts)).behind d ts) := by
  rw [statement_label hs ha, run_bind, run_advance hs (by rw [ha]; simp) fun _ => hf]
  change StateT.run (expectName >>= _) (s.behind a (c :: d :: ts)) = _
  rw [run_bind, run_expectName (s := s.behind a (c :: d :: ts)) rfl hc hf]
  change StateT.run (expectSym .dcolon >>= _) ((s.behind a (c :: d :: ts)).behind c (d :: ts)) = _
  rw [run_bind, run_expectSym (s := (s.behind a (c :: d :: ts)).behind c (d :: ts)) rfl hd hf]
  rfl

/-- A label, and what is read of it. -/
theorem label_eq_ok (hhead : headToken s.tokens = .sym .dcolon) (h : (statement n).run s = .ok (r, s')) :
    ∃ k a c d ts name skipped s₁, n = k + 2 ∧ s.tokens = a :: c :: d :: ts ∧ a.token = .sym .dcolon ∧
      c.token = .name name ∧ d.token = .sym .dcolon ∧
      (emptyStatements k).run (((s.behind a (c :: d :: ts)).behind c (d :: ts)).behind d ts) = .ok (skipped, s₁) ∧
      (declareLabel name a.line skipped).run s₁ = .ok (r, s') := by
  rcases hs : s.tokens with _ | ⟨a, ts⟩
  · rw [hs] at hhead
    cases hhead
  · rw [hs] at hhead
    have ha : a.token = .sym .dcolon := hhead
    match n with
    | 0 =>
      rw [statement] at h
      cases h
    | 1 =>
      rw [statement, run_bind, run_currentLine_cons hs] at h
      change StateT.run (currentToken >>= _) s = _ at h
      rw [run_bind, run_currentToken, hs, headToken_cons, ha] at h
      obtain ⟨_, s₁, -, h⟩ := run_bind_eq_ok h
      obtain ⟨name, s₂, -, h⟩ := run_bind_eq_ok h
      rw [labelStmt] at h
      cases h
    | k + 2 =>
      rw [statement_label hs ha] at h
      obtain ⟨_, s₁, hadvance, h⟩ := run_bind_eq_ok h
      obtain ⟨a', ts', hs', -, -, rfl⟩ := advance_eq_ok (by rw [hs, headToken_cons, ha]; simp) hadvance
      obtain ⟨rfl, rfl⟩ := List.cons.inj (hs.symm.trans hs')
      obtain ⟨name, s₂, hname, h⟩ := run_bind_eq_ok h
      obtain ⟨c, ts₁, hc, hcname, rfl⟩ := expectName_eq_ok hname
      obtain rfl : ts = c :: ts₁ := hc
      obtain ⟨_, s₃, hclose, h⟩ := run_bind_eq_ok h
      obtain ⟨d, ts₂, hd, hdsym, rfl⟩ := expectSym_eq_ok hclose
      obtain rfl : ts₁ = d :: ts₂ := hd
      obtain ⟨skipped, s₄, hempty, h⟩ := run_bind_eq_ok h
      exact ⟨k, a, c, d, ts₂, name, skipped, s₄, rfl, rfl, ha, hcname, hdsym, hempty, h⟩

/-- Behind a row of semicolons and labels there is no further one. -/
theorem moves_emptyStatements_end : ∀ n, Moves (fun _ => True)
    (fun ts => headToken ts ≠ .sym .semi ∧ headToken ts ≠ .sym .dcolon) (emptyStatements n)
  | 0 => by rw [emptyStatements]; exact .failNear
  | n + 1 => by
    rw [emptyStatements]
    refine .peek fun t => ?_
    have hmore : Moves (fun ts => True ∧ headToken ts = t)
        (fun ts => headToken ts ≠ .sym .semi ∧ headToken ts ≠ .sym .dcolon)
        (nested (statement n) >>= fun ss => emptyStatements n >>= fun more => pure (ss ++ more)) :=
      Moves.bind (M := fun _ => True) (fun _ _ _ _ _ => trivial) fun ss => (moves_emptyStatements_end n).thenPure
    split
    · exact hmore
    · exact hmore
    · rename_i hsemi hcolon
      rintro s r s' ⟨-, hhead⟩ hrun
      cases hrun
      exact ⟨fun h => hsemi (hhead.symm.trans h), fun h => hcolon (hhead.symm.trans h)⟩

theorem emptyStatements_stop (hsemi : headToken s.tokens ≠ .sym .semi) (hcolon : headToken s.tokens ≠ .sym .dcolon)
    (n : Nat) : (emptyStatements (n + 1)).run s = .ok ([], s) := by
  rw [emptyStatements, run_bind, run_currentToken]
  generalize headToken s.tokens = t at hsemi hcolon
  dsimp only [Except.bind]
  split
  · exact absurd rfl hsemi
  · exact absurd rfl hcolon
  · rfl

theorem emptyStatements_more (h : headToken s.tokens = .sym .semi ∨ headToken s.tokens = .sym .dcolon) (n : Nat) :
    (emptyStatements (n + 1)).run s = (nested (statement n) >>= fun ss => emptyStatements n >>= fun more =>
      pure (ss ++ more) : Parse (List Stmt)).run s := by
  rw [emptyStatements, run_bind, run_currentToken]
  rcases h with h | h <;> rw [h] <;> rfl

end Labels

section Twin

variable {A E : List Lexeme} {n : Nat}

/-- With the fuel `n`, a row of semicolons and labels that is read before `A` can be read before `E`. -/
def RowsEnd (A E : List Lexeme) (n : Nat) : Prop :=
  ∀ C s s₂ s' r, Twin A E C s s₂ → (emptyStatements n).run s = .ok (r, s') → s'.tokens = A →
    ∃ r₂ s₂' m₀, (∀ m, m₀ ≤ m → (emptyStatements m).run s₂ = .ok (r₂, s₂')) ∧ Twin A E [] s' s₂'

theorem moves_declareLabel {P : List Lexeme → Prop} (name : Bytes) (line : Nat) (skipped : List Stmt) :
    Moves P P (declareLabel name line skipped) := by
  refine .silent (silent_findLabel name) fun found => ?_
  split
  · exact .of_fails fun _ _ => ⟨_, rfl⟩
  · refine .silent silent_func fun fs => .look fun t => .silent silent_scopeDepth fun _ => ?_
    exact .silent ((silent_modifyBlock _).bind fun _ => silent_solve _) fun _ => .pure _

/-- A label takes the semicolons and labels behind it along. -/
theorem moves_label_end (n : Nat) : Moves (headToken · = .sym .dcolon)
    (fun ts => headToken ts ≠ .sym .semi ∧ headToken ts ≠ .sym .dcolon) (statement n) := by
  intro s r s' hhead hrun
  obtain ⟨k, a, c, d, ts, name, skipped, s₁, -, -, -, -, -, hempty, hdeclare⟩ := label_eq_ok hhead hrun
  rw [(moves_declareLabel (P := (· = s₁.tokens)) name a.line skipped s₁ r s' rfl hdeclare :)]
  exact moves_emptyStatements_end k _ skipped s₁ trivial hempty

/-- A label that is read before `A` can be read before `E`. -/
theorem RowsEnd.label (hE : headToken E = .eof) (hrows : ∀ k, k + 2 = n → RowsEnd A E k) {C : List Lexeme}
    {s s₂ s' : State} {r : List Stmt} (h : Twin A E C s s₂) (hhead : headToken s.tokens = .sym .dcolon)
    (hrun : (statement n).run s = .ok (r, s')) (hs' : s'.tokens = A) :
    ∃ r₂ s₂' m₀, (∀ m, m₀ ≤ m → (statement m).run s₂ = .ok (r₂, s₂')) ∧ Twin A E [] s' s₂' := by
  obtain ⟨k, a, c, d, ts, name, skipped, s₁, hn, hs, ha, hc, hd, hempty, hdeclare⟩ := label_eq_ok hhead hrun
  have hs₁ : s₁.tokens = A :=
    (moves_declareLabel (P := (· = s₁.tokens)) name a.line skipped s₁ r s' rfl hdeclare).symm.trans hs'
  obtain ⟨D, hD, -⟩ := (grammar k).emptyStatements _ skipped s₁ trivial hempty
  have hts : ts = D ++ A := by rw [← hs₁]; exact hD
  obtain rfl : C = a :: c :: d :: D := List.append_cancel_right (h.tokens.symm.trans (hs.trans (by rw [hts]; rfl)))
  have hs₂ : s₂.tokens = a :: c :: d :: (D ++ E) := h.tokens₂
  subst hts
  obtain ⟨skipped₂, s₁', m₀, hempty₂, htwin⟩ := hrows k hn.symm D _ _ s₁ skipped h.behind.behind.behind hempty hs₁
  obtain ⟨htokens, hfailure, hlevel, r₂, s₂', hdeclare₂, htokens₂, hfailure₂, hlevel₂, hfuncs⟩ :=
    htwin.funcs.declareLabel (by rw [htwin.tokens₂]; exact hE) hdeclare skipped₂
  simp only [List.cons_append] at hempty₂
  refine ⟨r₂, s₂', m₀ + 2, fun m hm => ?_, htokens.trans htwin.tokens, htokens₂.trans htwin.tokens₂,
    hfailure.trans htwin.failure, hfailure₂.trans htwin.failure₂, hlevel₂.trans (htwin.level.trans hlevel.symm), hfuncs⟩
  obtain ⟨m, rfl⟩ := Nat.exists_eq_add_of_le' (show 2 ≤ m by omega)
  rw [run_label hs₂ ha hc hd h.failure₂, run_bind, hempty₂ m (by omega)]
  exact hdeclare₂

/-- A reader that succeeds one level further in, in states of the same level. -/
theorem nested_twin {C : List Lexeme} {s s₂ s' : State} {p : Parse (List Stmt)} {q : Nat → Parse (List Stmt)}
    {r : List Stmt} (hlevel : s₂.level = s.level) (hrun : (nested p).run s = .ok (r, s'))
    (h : ∀ s₁, p.run { s with level := s.level + 1 } = .ok (r, s₁) → s₁.tokens = s'.tokens →
      ∃ r₂ s₂' m₀, (∀ m, m₀ ≤ m → (q m).run { s₂ with level := s₂.level + 1 } = .ok (r₂, s₂')) ∧ Twin A E C s₁ s₂') :
    ∃ r₂ s₂' m₀, (∀ m, m₀ ≤ m → (nested (q m)).run s₂ = .ok (r₂, s₂')) ∧ Twin A E C s' s₂' := by
  have hmax : ¬ maxLevels ≤ s.level + 1 := by
    intro hmax
    rw [run_nested, if_pos hmax] at hrun
    cases hrun
  obtain ⟨s₁, hp, rfl⟩ := nested_eq_ok hrun
  obtain ⟨r₂, s₂', m₀, hq, htwin⟩ := h s₁ hp rfl
  refine ⟨r₂, { s₂' with level := s₂'.level - 1 }, m₀, fun m hm => ?_, htwin.deeper (· - 1)⟩
  rw [run_nested, if_neg (by rw [hlevel]; exact hmax), hq m hm]
  rfl

theorem run_semi {s : State} {l : Lexeme} {ts : List Lexeme} (hs : s.tokens = l :: ts) (hl : l.token = .sym .semi)
    (hf : s.failure = none) (n : Nat) : (statement (n + 1)).run s = .ok ([], s.behind l ts) := by
  rw [statement, run_bind, run_currentLine_cons hs]
  change StateT.run (currentToken >>= _) s = _
  rw [run_bind, run_currentToken, hs, headToken_cons, hl]
  change StateT.run (advance >>= _) s = _
  rw [run_bind, run_advance hs (by rw [hl]; simp) fun _ => hf]
  rfl

/-- A row of semicolons and labels that can be read before other tokens can be read before the end. -/
theorem rowsEnd (hA : Calm (headToken A)) (hE : headToken E = .eof) : ∀ n, RowsEnd A E n
  | 0, C, s, s₂, s', r, _, hrun, _ => by
    rw [emptyStatements] at hrun
    cases hrun
  | n + 1, C, s, s₂, s', r, h, hrun, hs' => by
    by_cases hrow : headToken s.tokens = .sym .semi ∨ headToken s.tokens = .sym .dcolon
    · -- the row goes on, so that it has not reached `A`
      obtain ⟨l, C, rfl⟩ : ∃ l C', C = l :: C' := by
        cases C with
        | cons l C => exact ⟨l, C, rfl⟩
        | nil =>
          rw [h.tokens] at hrow
          exact (hrow.elim (hA.1.ne_sym _) (hA.1.ne_sym _)).elim
      have hhead : headToken s.tokens = l.token := by rw [h.tokens]; rfl
      rw [emptyStatements_more hrow] at hrun
      obtain ⟨ss, s₁, hfirst, hrun⟩ := run_bind_eq_ok hrun
      obtain ⟨more, s₁', hmore, hpure⟩ := run_bind_eq_ok hrun
      cases hpure
      obtain ⟨C₁, ss₂, s₂₁, m₁, hfirst₂, htwin₁⟩ : ∃ C₁ ss₂ s₂₁ m₁,
          (∀ m, m₁ ≤ m → (nested (statement m)).run s₂ = .ok (ss₂, s₂₁)) ∧ Twin A E C₁ s₁ s₂₁ := by
        rcases hrow with hsemi | hcolon
        · refine ⟨C, nested_twin h.level hfirst fun u hu _ => ?_⟩
          have hl : l.token = .sym .semi := hhead.symm.trans hsemi
          cases n with
          | zero =>
            rw [statement] at hu
            cases hu
          | succ n =>
            have htwin := h.deeper (· + 1)
            rw [run_semi htwin.tokens hl htwin.failure] at hu
            cases hu
            refine ⟨[], _, 1, fun m hm => ?_, htwin.behind⟩
            obtain ⟨m, rfl⟩ := Nat.exists_eq_add_of_le' hm
            exact run_semi htwin.tokens₂ hl htwin.failure₂ m
        · have hend := moves_label_end n |>.nested s ss s₁ hcolon hfirst
          have hs₁ : s₁.tokens = A := by
            cases n with
            | zero =>
              rw [emptyStatements] at hmore
              cases hmore
            | succ n =>
              rw [emptyStatements_stop hend.1 hend.2] at hmore
              cases hmore
              exact hs'
          refine ⟨[], nested_twin h.level hfirst fun u hu hutokens => ?_⟩
          exact RowsEnd.label hE (fun k _ => rowsEnd hA hE k) (h.deeper (· + 1)) hcolon hu (hutokens.trans hs₁)
      obtain ⟨more₂, s₂', m₂, hmore₂, htwin⟩ := rowsEnd hA hE n C₁ s₁ s₂₁ s' more htwin₁ hmore hs'
      refine ⟨ss₂ ++ more₂, s₂', max m₁ m₂ + 1, fun m hm => ?_, htwin⟩
      obtain ⟨m, rfl⟩ := Nat.exists_eq_add_of_le' (show 1 ≤ m by omega)
      have hhead₂ : headToken s₂.tokens = headToken s.tokens := by rw [h.tokens, h.tokens₂]; rfl
      rw [emptyStatements_more (hhead₂ ▸ hrow), run_bind, hfirst₂ m (by omega)]
      change StateT.run (emptyStatements m >>= _) s₂₁ = _
      rw [run_bind, hmore₂ m (by omega)]
      rfl
    · rw [emptyStatements_stop (fun h => hrow (.inl h)) (fun h => hrow (.inr h))] at hrun
      cases hrun
      obtain rfl : C = [] := List.append_left_eq_self.1 (h.tokens.symm.trans hs')
      have hhead₂ : headToken s₂.tokens = .eof := by rw [h.tokens₂]; exact hE
      refine ⟨[], s₂, 1, fun m hm => ?_, h⟩
      obtain ⟨m, rfl⟩ := Nat.exists_eq_add_of_le' hm
      exact emptyStatements_stop (by rw [hhead₂]; simp) (by rw [hhead₂]; simp) m

/-- A label at the end of the statements can also be read at the end of the program. -/
theorem label_before_eof (hA : Calm (headToken A)) (hE : headToken E = .eof) {s s' : State} {l : Lexeme}
    {T : List Lexeme} {ss : List Stmt} (htop : TopLevel s) (hl : l.token = .sym .dcolon)
    (hrun : (nested (statement n)).run (s.before (l :: T ++ A) none) = .ok (ss, s')) (hs' : s'.tokens = A) :
    ∃ m ss₂ s₂', (nested (statement m)).run (s.before (l :: T ++ E) none) = .ok (ss₂, s₂') ∧ s₂'.tokens = E ∧
      escaping s₂'.funcs = escaping s'.funcs := by
  have htwin : Twin A E (l :: T) (s.before (l :: T ++ A) none) (s.before (l :: T ++ E) none) :=
    ⟨rfl, rfl, rfl, rfl, rfl, .refl htop.scopes⟩
  obtain ⟨ss₂, s₂', m, hrun₂, htwin'⟩ := nested_twin (C := []) htwin.level hrun fun u hu hutokens =>
    RowsEnd.label hE (fun k _ => rowsEnd hA hE k) (htwin.deeper (· + 1)) hl hu (hutokens.trans hs')
  exact ⟨m, ss₂, s₂', hrun₂ m (Nat.le_refl m), htwin'.tokens₂, htwin'.funcs.escaping⟩

end Twin

end Scratchpad.Lua.Parser
