import Scratchpad.Lua.Parser

/-!
# Readers look one token ahead

A reader that succeeds consumes the tokens at the front and looks at no more than the one behind them. `Reads` says so
of a family of readers, indexed by their fuel: the same tokens give the same result before any other rest, if the rest
begins with the same token or both rests begin with tokens of a set `S` that the reader does not tell apart; and a fuel
that grows with the number of the consumed tokens suffices. The lemmas follow the way in which readers are put together.
-/

namespace Scratchpad.Lua.Parser

variable {α β : Type}

/-! ## Rests of the tokens -/

/-- The first of some tokens, `eof` if there is none. -/
def headToken (ts : List Lexeme) : Token :=
  (ts.head?.map Lexeme.token).getD .eof

@[simp]
theorem headToken_cons (l : Lexeme) (ts : List Lexeme) : headToken (l :: ts) = l.token := rfl

@[simp]
theorem headToken_nil : headToken [] = .eof := rfl

/-- The state with other tokens, and another error behind them. -/
def State.before (s : State) (ts : List Lexeme) (f : Option SyntaxError) : State :=
  { s with tokens := ts, failure := f }

/-- The rests `ts` and `ts'` look the same to a reader that does not tell the tokens in `S` apart. -/
def Meets (S : Token → Prop) (ts ts' : List Lexeme) : Prop :=
  headToken ts = headToken ts' ∨ S (headToken ts) ∧ S (headToken ts')

/-- The rest `ts` with the error `f` behind it can be gone on to. -/
def Reachable (ts : List Lexeme) (f : Option SyntaxError) : Prop :=
  ts = [] → f = none

theorem Meets.mono {S S' : Token → Prop} {ts ts' : List Lexeme} (h : ∀ t, S t → S' t) (hm : Meets S ts ts') :
    Meets S' ts ts' :=
  hm.imp id fun ⟨h₁, h₂⟩ => ⟨h _ h₁, h _ h₂⟩

theorem Meets.append {S S' : Token → Prop} {ts ts' C : List Lexeme} (h : C = [] → ∀ t, S t → S' t)
    (hm : Meets S ts ts') : Meets S' (C ++ ts) (C ++ ts') := by
  cases C with
  | nil => exact hm.mono (h rfl)
  | cons l C => exact .inl rfl

theorem Reachable.append {ts : List Lexeme} {f : Option SyntaxError} (h : Reachable ts f) (C : List Lexeme) :
    Reachable (C ++ ts) f :=
  fun hnil => h (List.append_eq_nil_iff.1 hnil).2

/-! ## Readers that look one token ahead -/

/-- The reader `p n` consumes at least `k` tokens if it succeeds at a token in `P`, and `eof` is not among them. It does
the same before a rest that it does not tell apart, with any fuel from `b` and twenty for each consumed token on. -/
def Reads (n : Nat) (S P : Token → Prop) (k b : Nat) (p : Nat → Parse α) : Prop :=
  ∀ s r s', P (headToken s.tokens) → (p n).run s = .ok (r, s') → ∃ C, s.tokens = C ++ s'.tokens ∧ k ≤ C.length ∧
    s'.failure = s.failure ∧ s'.level = s.level ∧ (∀ l ∈ C, l.token ≠ .eof) ∧
    (Reachable s.tokens s.failure → Reachable s'.tokens s'.failure) ∧
    ∀ m ts f, b + 20 * C.length ≤ m → Meets S s'.tokens ts → Reachable ts f →
      (p m).run (s.before (C ++ ts) f) = .ok (r, s'.before ts f)

/-- Any token. -/
abbrev Any : Token → Prop := fun _ => True

/-- No token. -/
abbrev Never : Token → Prop := fun _ => False

section Rules

variable {n k k' b b' : Nat} {S S' P P' : Token → Prop} {p : Nat → Parse α}

theorem Reads.mono (h : Reads n S P k b p) (hS : ∀ t, S' t → S t) (hP : ∀ t, P' t → P t) (hk : k' ≤ k) (hb : b ≤ b') :
    Reads n S' P' k' b' p := by
  intro s r s' hp hrun
  obtain ⟨C, htokens, hlen, hf, hl, heof, hr, hlocal⟩ := h s r s' (hP _ hp) hrun
  refine ⟨C, htokens, by omega, hf, hl, heof, hr, fun m ts f hm hmeets hreach => ?_⟩
  exact hlocal m ts f (by omega) (hmeets.mono hS) hreach

/-- A reader that is not called with enough fuel fails. -/
theorem Reads.zero {message : Bytes} (h : p 0 = failNear message) : Reads 0 S P k b p := by
  intro s r s' _ hrun
  rw [h] at hrun
  cases hrun

theorem Reads.succ {body : Nat → Parse α} (hp : ∀ m, p (m + 1) = body m) (h : Reads n S P k b body) :
    Reads (n + 1) S P k (b + 1) p := by
  intro s r s' hP hrun
  rw [hp] at hrun
  obtain ⟨C, htokens, hlen, hf, hl, heof, hr, hlocal⟩ := h s r s' hP hrun
  refine ⟨C, htokens, hlen, hf, hl, heof, hr, fun m ts f hm hmeets hreach => ?_⟩
  obtain ⟨m, rfl⟩ := Nat.exists_eq_add_of_le' (show 1 ≤ m by omega)
  rw [hp]
  exact hlocal m ts f (by omega) hmeets hreach

theorem run_bind (p : Parse α) (q : α → Parse β) (s : State) :
    (p >>= q).run s = (p.run s).bind fun r => (q r.1).run r.2 := rfl

/-- What runs in a sequence that succeeds. -/
theorem run_bind_eq_ok {p : Parse α} {q : α → Parse β} {s s' : State} {r : β} (h : (p >>= q).run s = .ok (r, s')) :
    ∃ a s₁, p.run s = .ok (a, s₁) ∧ (q a).run s₁ = .ok (r, s') := by
  rw [run_bind] at h
  rcases hp : p.run s with e | ⟨a, s₁⟩
  · rw [hp] at h
    cases h
  · rw [hp] at h
    exact ⟨a, s₁, rfl, h⟩

/-- A sequence tells tokens apart as its second reader does, and as its first one does if the second may consume
nothing. -/
theorem Reads.bind {q : α → Nat → Parse β} (h₁ : Reads n S' P k b p)
    (h₂ : ∀ a, Reads n S Any k' (b + 20 * k) (q a)) (hS : k' = 0 → ∀ t, S t → S' t) :
    Reads n S P (k + k') b fun m => p m >>= fun a => q a m := by
  intro s r s' hP hrun
  obtain ⟨a, s₁, hrun₁, hrun₂⟩ := run_bind_eq_ok hrun
  obtain ⟨C₁, ht₁, hk₁, hf₁, hl₁, he₁, hr₁, hlocal₁⟩ := h₁ s a s₁ hP hrun₁
  obtain ⟨C₂, ht₂, hk₂, hf₂, hl₂, he₂, hr₂, hlocal₂⟩ := h₂ a s₁ r s' trivial hrun₂
  refine ⟨C₁ ++ C₂, by rw [ht₁, ht₂, List.append_assoc], by rw [List.length_append]; omega, hf₂.trans hf₁,
    hl₂.trans hl₁, fun l hl => ?_, fun h => hr₂ (hr₁ h), fun m ts f hm hmeets hreach => ?_⟩
  · rcases List.mem_append.1 hl with hl | hl
    · exact he₁ l hl
    · exact he₂ l hl
  · rw [List.length_append] at hm
    have hmeets₁ : Meets S' s₁.tokens (C₂ ++ ts) := by
      rw [ht₂]
      refine hmeets.append fun hnil => hS ?_
      rw [hnil] at hk₂
      exact Nat.le_zero.1 hk₂
    rw [run_bind, List.append_assoc, hlocal₁ m (C₂ ++ ts) f (by omega) hmeets₁ (hreach.append C₂)]
    exact hlocal₂ m ts f (by omega) hmeets hreach

theorem run_currentToken (s : State) : currentToken.run s = .ok (headToken s.tokens, s) := by
  rcases hs : s.tokens with _ | ⟨l, ts⟩ <;> simp [currentToken, current, hs] <;> rfl

/-- What a reader does at each token. -/
theorem Reads.peek {q : Token → Nat → Parse β} (h : ∀ t, P t → Reads n S (· = t) k b (q t))
    (hS : k = 0 → ∀ t u, S t → S u → ∀ m, q t m = q u m) : Reads n S P k b fun m => currentToken >>= fun t => q t m := by
  intro s r s' hP hrun
  obtain ⟨t, s₁, hrun₁, hrun₂⟩ := run_bind_eq_ok hrun
  rw [run_currentToken] at hrun₁
  cases hrun₁
  obtain ⟨C, ht, hk, hf, hl, he, hr, hlocal⟩ := h _ hP s r s' rfl hrun₂
  refine ⟨C, ht, hk, hf, hl, he, hr, fun m ts f hm hmeets hreach => ?_⟩
  rw [run_bind, run_currentToken]
  change (q (headToken (C ++ ts)) m).run _ = _
  have hq : q (headToken (C ++ ts)) = q (headToken s.tokens) := by
    rw [ht]
    cases C with
    | cons l C => rfl
    | nil =>
      rcases hmeets with heq | ⟨hs₁, hs₂⟩
      · rw [List.nil_append, List.nil_append, heq]
      · exact funext (hS (Nat.le_zero.1 hk) _ _ hs₂ hs₁)
  rw [hq]
  exact hlocal m ts f hm hmeets hreach

end Rules

/-! ## Actions on the scopes -/

/-- The action does not look at the tokens. -/
def Silent (a : Parse α) : Prop :=
  ∀ s r s', a.run s = .ok (r, s') → s'.tokens = s.tokens ∧ s'.failure = s.failure ∧ s'.level = s.level ∧
    ∀ ts f, a.run (s.before ts f) = .ok (r, s'.before ts f)

section SilentRules

variable {n k b : Nat} {S P : Token → Prop}

theorem Silent.pure (r : α) : Silent (Pure.pure r : Parse α) := by
  intro s r' s' hrun
  cases hrun
  exact ⟨rfl, rfl, rfl, fun _ _ => rfl⟩

theorem Silent.bind {a : Parse α} {q : α → Parse β} (h₁ : Silent a) (h₂ : ∀ r, Silent (q r)) : Silent (a >>= q) := by
  intro s r s' hrun
  obtain ⟨r₁, s₁, hrun₁, hrun₂⟩ := run_bind_eq_ok hrun
  obtain ⟨ht₁, hf₁, hl₁, hbefore₁⟩ := h₁ s r₁ s₁ hrun₁
  obtain ⟨ht₂, hf₂, hl₂, hbefore₂⟩ := h₂ r₁ s₁ r s' hrun₂
  refine ⟨ht₂.trans ht₁, hf₂.trans hf₁, hl₂.trans hl₁, fun ts f => ?_⟩
  rw [run_bind, hbefore₁]
  exact hbefore₂ ts f

theorem Silent.get_bind {q : State → Parse β} (h : ∀ s, Silent (q s)) (hq : ∀ s ts f, q (s.before ts f) = q s) :
    Silent (get >>= q) := by
  intro s r s' hrun
  obtain ⟨ht, hf, hl, hbefore⟩ := h s s r s' hrun
  refine ⟨ht, hf, hl, fun ts f => ?_⟩
  change (q (s.before ts f)).run (s.before ts f) = _
  rw [hq]
  exact hbefore ts f

theorem Silent.modify {g : State → State} (ht : ∀ s, (g s).tokens = s.tokens ∧ (g s).failure = s.failure ∧
    (g s).level = s.level) (hg : ∀ s ts f, g (s.before ts f) = (g s).before ts f) :
    Silent (modify g : Parse PUnit) := by
  intro s r s' hrun
  cases hrun
  refine ⟨(ht s).1, (ht s).2.1, (ht s).2.2, fun ts f => ?_⟩
  change Except.ok (PUnit.unit, g (s.before ts f)) = _
  rw [hg]

/-- An action that fails does not go on to the next token. -/
theorem Silent.of_fails {a : Parse α} (h : ∀ s, ∃ e, a.run s = .error e) : Silent a := by
  intro s r s' hrun
  obtain ⟨e, he⟩ := h s
  rw [he] at hrun
  cases hrun

theorem Silent.failHere (message : Bytes) : Silent (failHere message : Parse α) :=
  .of_fails fun _ => ⟨_, rfl⟩

theorem Silent.failNear (message : Bytes) : Silent (failNear message : Parse α) :=
  .of_fails fun _ => ⟨_, rfl⟩

theorem Silent.ite {c : Prop} [Decidable c] {a a' : Parse α} (h : Silent a) (h' : Silent a') :
    Silent (if c then a else a') := by
  split
  · exact h
  · exact h'

theorem Silent.map {a : Parse α} (h : Silent a) (g : α → β) : Silent (g <$> a) := by
  rw [map_eq_pure_bind]
  exact h.bind fun _ => .pure _

theorem Silent.forIn {γ σ : Type} {g : γ → σ → Parse (ForInStep σ)} (h : ∀ x r, Silent (g x r)) (xs : List γ)
    (r : σ) : Silent (forIn xs r g) := by
  induction xs generalizing r with
  | nil => exact .pure _
  | cons x xs ih =>
    rw [List.forIn_cons]
    refine (h x r).bind fun step => ?_
    cases step with
    | done r => exact .pure _
    | yield r => exact ih r

theorem Silent.reads {a : Parse α} (h : Silent a) : Reads n S P 0 b fun _ => a := by
  intro s r s' _ hrun
  obtain ⟨ht, hf, hl, hbefore⟩ := h s r s' hrun
  refine ⟨[], ht.symm, Nat.zero_le _, hf, hl, fun l hl => absurd hl List.not_mem_nil, ?_, fun m ts f _ _ _ => ?_⟩
  · rw [ht, hf]
    exact id
  · exact hbefore ts f

theorem Reads.silent_bind {a : Parse α} {q : α → Nat → Parse β} (ha : Silent a)
    (h : ∀ r, Reads n S P k b (q r)) : Reads n S P k b fun m => a >>= fun r => q r m := by
  intro s r s' hP hrun
  obtain ⟨r₁, s₁, hrun₁, hrun₂⟩ := run_bind_eq_ok hrun
  obtain ⟨ht₁, hf₁, hl₁, hbefore₁⟩ := ha s r₁ s₁ hrun₁
  obtain ⟨C, ht, hk, hf, hl, he, hr, hbefore⟩ := h r₁ s₁ r s' (by rw [ht₁]; exact hP) hrun₂
  rw [ht₁, hf₁] at hr
  refine ⟨C, ht₁.symm.trans ht, hk, hf.trans hf₁, hl.trans hl₁, he, hr, fun m ts f hm hmeets hreach => ?_⟩
  rw [run_bind, hbefore₁]
  exact hbefore m ts f hm hmeets hreach

theorem Reads.bind_silent {p : Nat → Parse α} {q : α → Parse β} (h : Reads n S P k b p) (hq : ∀ r, Silent (q r)) :
    Reads n S P k b fun m => p m >>= q :=
  h.bind (fun r => (hq r).reads) fun _ _ hS => hS

end SilentRules

/-! ## The actions on scopes -/

theorem silent_func : Silent func :=
  .get_bind (fun _ => .pure _) fun _ _ _ => rfl

theorem silent_modifyFunc (g : FuncScope → FuncScope) : Silent (modifyFunc g) := by
  refine .modify (fun s => ?_) fun s ts f => ?_
  · split <;> exact ⟨rfl, rfl, rfl⟩
  · rcases s with ⟨_, _, _, _ | ⟨fs, rest⟩, _, _⟩ <;> rfl

theorem silent_modifyBlock (g : BlockScope → BlockScope) : Silent (modifyBlock g) :=
  silent_modifyFunc _

theorem silent_activeCount : Silent activeCount :=
  silent_func.bind fun _ => .pure _

theorem silent_scopeDepth : Silent scopeDepth :=
  .get_bind (fun _ => .pure _) fun _ _ _ => rfl

theorem silent_lastLine : Silent lastLine :=
  .get_bind (fun _ => .pure _) fun _ _ _ => rfl

theorem silent_checkLocals (count : Nat) : Silent (checkLocals count) :=
  silent_func.bind fun _ => .ite (.failNear _) (.pure _)

theorem silent_declare (names : List Local) : Silent (declare names) :=
  silent_modifyFunc _

theorem silent_declared? (name : Bytes) : Silent (declared? name) := by
  refine .get_bind (fun s => ?_) fun _ _ _ => rfl
  split
  · split <;> exact .pure _
  · exact .pure _

theorem silent_envExpr : Silent envExpr := by
  refine (silent_declared? _).bind fun r => ?_
  split
  · exact .pure _
  · exact silent_scopeDepth.bind fun _ => .pure _

theorem silent_nameExpr (name : Bytes) : Silent (nameExpr name) := by
  unfold nameExpr
  split
  · exact silent_envExpr
  · refine (silent_declared? _).bind fun r => ?_
    split
    · exact .pure _
    · exact silent_envExpr.bind fun _ => .pure _

theorem silent_findLabel (name : Bytes) : Silent (findLabel name) :=
  silent_func.bind fun _ => .pure _

theorem silent_jumpsIntoScope (g : Pending) : Silent (jumpsIntoScope g : Parse α) :=
  silent_func.bind fun _ => .failHere _

theorem silent_addPending (name : Bytes) (line : Nat) : Silent (addPending name line) :=
  silent_activeCount.bind fun _ => silent_modifyBlock _

theorem silent_enterBlock (isLoop : Bool) : Silent (enterBlock isLoop) :=
  silent_modifyFunc _

theorem silent_failUndefined (g : Pending) : Silent (failUndefined g : Parse α) :=
  .ite (.failHere _) (.failHere _)

theorem silent_leaveBlock : Silent leaveBlock := by
  refine silent_func.bind fun fs => ?_
  rcases fs.blocks with _ | ⟨b, _ | ⟨outer, more⟩⟩
  · exact .pure _
  · refine (silent_modifyFunc _).bind fun _ => ?_
    split
    · exact .pure _
    · exact silent_failUndefined _
  · exact silent_modifyFunc _

theorem silent_checkAssignable (name? : Option Bytes) (e : Expr) : Silent (checkAssignable name? e) := by
  unfold checkAssignable
  dsimp only
  split
  · exact .pure _
  · refine (silent_declared? _).bind fun r => ?_
    split
    · exact .failHere _
    · exact .failHere _
    · exact .failHere _
    · exact .pure _

theorem silent_solve (l : Label) : Silent (solve l) := by
  refine (silent_func.map _).bind fun b => ?_
  refine (Silent.forIn (fun g _ => ?_) _ _).bind fun _ => silent_modifyBlock _
  exact .ite ((silent_jumpsIntoScope g).bind fun _ => .pure _) (.pure _)

/-! ## Tokens -/

theorem run_currentLine_cons {s : State} {l : Lexeme} {ts : List Lexeme} (h : s.tokens = l :: ts) :
    currentLine.run s = .ok (l.line, s) := by
  simp [currentLine, current, h]; rfl

theorem run_checkFailure {s : State} {ts : List Lexeme} (h : Reachable ts s.failure) :
    (checkFailure ts).run s = .ok ((), s) := by
  rw [checkFailure]
  cases ts with
  | nil =>
    simp [h rfl]; rfl
  | cons l ts => rfl

theorem reachable_of_checkFailure {s s' : State} {ts : List Lexeme} {r : Unit}
    (h : (checkFailure ts).run s = .ok (r, s')) : Reachable ts s.failure ∧ s' = s := by
  cases ts with
  | nil =>
    rcases hf : s.failure with _ | e
    · rw [run_checkFailure fun _ => hf] at h
      cases h
      exact ⟨fun _ => rfl, rfl⟩
    · have hthrow : (checkFailure []).run s = .error e := by
        simp [checkFailure, hf]; rfl
      rw [hthrow] at h
      cases h
  | cons l ts =>
    cases h
    exact ⟨(by rintro ⟨⟩), rfl⟩

/-- The state behind a token. -/
def State.behind (s : State) (l : Lexeme) (ts : List Lexeme) : State :=
  { s with tokens := ts, last := l.line }

theorem advance_eq {s : State} {l : Lexeme} {ts : List Lexeme} (hs : s.tokens = l :: ts) (hl : l.token ≠ .eof) :
    advance.run s = (checkFailure ts >>= fun _ => set (s.behind l ts) : Parse PUnit).run s := by
  obtain ⟨_, failure, last, funcs, level, source⟩ := s
  obtain rfl : _ = l :: ts := hs
  simp only [advance]
  change StateT.run (if l.token = .eof then _ else _ : Parse PUnit) _ = _
  rw [if_neg hl]
  rfl

/-- There is nothing behind the end of the program. -/
theorem run_advance_eof {s : State} (hs : headToken s.tokens = .eof) : advance.run s = .ok ((), s) := by
  obtain ⟨tokens, failure, last, funcs, level, source⟩ := s
  cases tokens with
  | nil => rfl
  | cons l ts =>
    have hl : l.token = .eof := hs
    simp only [advance]
    change StateT.run (if l.token = .eof then _ else _ : Parse PUnit) _ = _
    rw [if_pos hl]
    rfl

theorem run_advance {s : State} {l : Lexeme} {ts : List Lexeme} (hs : s.tokens = l :: ts) (hl : l.token ≠ .eof)
    (hr : Reachable ts s.failure) : advance.run s = .ok ((), s.behind l ts) := by
  rw [advance_eq hs hl, run_bind, run_checkFailure hr]
  rfl

/-- Going on is possible from a token that is not the last one. -/
theorem advance_eq_ok {s s' : State} {r : Unit} (hs : headToken s.tokens ≠ .eof) (h : advance.run s = .ok (r, s')) :
    ∃ l ts, s.tokens = l :: ts ∧ l.token ≠ .eof ∧ Reachable ts s.failure ∧ s' = s.behind l ts := by
  rcases hts : s.tokens with _ | ⟨l, ts⟩
  · rw [hts] at hs
    exact absurd rfl hs
  · rw [hts] at hs
    rw [advance_eq hts hs] at h
    obtain ⟨_, s₁, hcheck, hset⟩ := run_bind_eq_ok h
    obtain ⟨hr, rfl⟩ := reachable_of_checkFailure hcheck
    cases hset
    exact ⟨l, ts, rfl, hs, hr, rfl⟩

section TokenRules

variable {n k k' b b' : Nat} {S S' P P' : Token → Prop} {p : Nat → Parse α}

theorem reads_advance : Reads n S (· ≠ .eof) 1 b fun _ => advance := by
  intro s r s' hP hrun
  obtain ⟨l, ts, hs, hl, hr, rfl⟩ := advance_eq_ok hP hrun
  refine ⟨[l], hs, Nat.le_refl _, rfl, rfl, fun x hx => ?_, fun _ => hr, fun m ts' f _ _ hreach => ?_⟩
  · obtain rfl := List.mem_singleton.1 hx
    exact hl
  · exact run_advance rfl hl hreach

/-- A reader, and what follows it. -/
theorem Reads.seqFrom {k₁ b₁ : Nat} {P₁ : Token → Prop} {q : α → Nat → Parse β} (h₁ : Reads n S P₁ k₁ b₁ p)
    (hP : ∀ t, P t → P₁ t) (hb : b₁ ≤ b) (h₂ : ∀ a, Reads n S Any (k - k₁) (b + 20 * k₁) (q a)) :
    Reads n S P k b fun m => p m >>= fun a => q a m :=
  ((h₁.mono (fun _ h => h) hP (Nat.le_refl _) hb).bind h₂ fun _ _ h => h).mono (fun _ h => h) (fun _ h => h)
    (by omega) (Nat.le_refl _)

/-- A reader that begins anywhere, and what follows it. -/
theorem Reads.seq {k₁ b₁ : Nat} {q : α → Nat → Parse β} (h₁ : Reads n S Any k₁ b₁ p) (hb : b₁ ≤ b)
    (h₂ : ∀ a, Reads n S Any (k - k₁) (b + 20 * k₁) (q a)) : Reads n S P k b fun m => p m >>= fun a => q a m :=
  h₁.seqFrom (fun _ _ => trivial) hb h₂

/-- A reader that tells all tokens apart, and what follows it and consumes a token. -/
theorem Reads.seqThrough {k₁ b₁ : Nat} {q : α → Nat → Parse β} (h₁ : Reads n Never Any k₁ b₁ p) (hb : b₁ ≤ b)
    (hk : 0 < k - k₁) (h₂ : ∀ a, Reads n S Any (k - k₁) (b + 20 * k₁) (q a)) :
    Reads n S P k b fun m => p m >>= fun a => q a m :=
  ((h₁.mono (fun _ h => h) (fun _ _ => trivial) (Nat.le_refl _) hb).bind h₂ fun hnil => absurd hnil (by omega)).mono
    (fun _ h => h) (fun _ h => h) (by omega) (Nat.le_refl _)

/-- A reader that is known to look ahead, called at the end. -/
theorem Reads.lastFrom {k₁ b₁ : Nat} {P₁ : Token → Prop} (h : Reads n S P₁ k₁ b₁ p) (hP : ∀ t, P t → P₁ t)
    (hb : b₁ ≤ b) (hk : k ≤ k₁) : Reads n S P k b p :=
  h.mono (fun _ h => h) hP hk hb

/-- A reader that begins anywhere, called at the end. -/
theorem Reads.last {k₁ b₁ : Nat} (h : Reads n S Any k₁ b₁ p) (hb : b₁ ≤ b) (hk : k ≤ k₁) : Reads n S P k b p :=
  h.lastFrom (fun _ _ => trivial) hb hk

theorem Reads.some (h : Reads n S P 1 b p) : Reads n S P 0 b p :=
  h.mono (fun _ h => h) (fun _ h => h) (Nat.zero_le _) (Nat.le_refl _)

/-- A reader tells all tokens apart if it need not be known to do less. -/
theorem Reads.never (h : Reads n S P k b p) : Reads n Never P k b p :=
  h.mono (fun _ h => h.elim) (fun _ h => h) (Nat.le_refl _) (Nat.le_refl _)

/-- A reader that consumes a token at hand. -/
theorem Reads.consume {q : Nat → Parse β} (hP : ∀ t, P t → t ≠ .eof) (h : Reads n S Any (k - 1) (b + 20) q) :
    Reads n S P k b fun m => advance >>= fun _ => q m :=
  reads_advance.seqFrom hP (Nat.le_refl b) fun _ => h

/-- A token is consumed if it is the current one. -/
theorem Reads.test {q : Bool → Nat → Parse β} {t : Token} (ht : t ≠ .eof) (hSt : ¬ S t)
    (htrue : Reads n S Any (k - 1) (b + 20) (q true)) (hfalse : Reads n S P k b (q false)) :
    Reads n S P k b fun m => testNext t >>= fun r => q r m := by
  have hpeek : (fun m => testNext t >>= fun r => q r m) = fun m => currentToken >>= fun u =>
      if u = t then advance >>= fun _ => q true m else q false m := by
    funext m
    rw [testNext, bind_assoc]
    refine congrArg (currentToken >>= ·) (funext fun u => ?_)
    split
    · rw [bind_assoc]
      rfl
    · rw [pure_bind]
  rw [hpeek]
  refine .peek (fun u hu => ?_) fun _ u v hu hv m => ?_
  · by_cases hut : u = t
    · simp only [if_pos hut]
      exact .consume (fun v hv => by rw [hv, hut]; exact ht) htrue
    · simp only [if_neg hut]
      exact hfalse.mono (fun _ h => h) (fun v hv => by rw [hv]; exact hu) (Nat.le_refl _) (Nat.le_refl _)
  · rw [if_neg fun hut : u = t => hSt (hut ▸ hu), if_neg fun hvt : v = t => hSt (hvt ▸ hv)]

/-- A token that is known to be the current one. -/
theorem Reads.testYes {q : Bool → Nat → Parse β} {t : Token} (ht : t ≠ .eof) (hP : ∀ u, P u → u = t) (hk : 0 < k)
    (h : Reads n S Any (k - 1) (b + 20) (q true)) : Reads n S P k b fun m => testNext t >>= fun r => q r m := by
  simp only [testNext, bind_assoc]
  refine .peek (fun u hu => ?_) fun hzero => absurd hzero (by omega)
  simp only [if_pos (hP u hu), bind_assoc, pure_bind]
  exact .consume (fun v hv => by rw [hv, hP u hu]; exact ht) h

/-- A reader that fails may be anything. -/
theorem Reads.of_fails {p : Nat → Parse α} (h : ∀ s, ∃ e, (p n).run s = .error e) : Reads n S P k b p := by
  intro s r s' _ hrun
  obtain ⟨e, he⟩ := h s
  rw [he] at hrun
  cases hrun

theorem reads_failNear (message : Bytes) : Reads n S P k b fun _ => (failNear message : Parse α) :=
  .of_fails fun _ => ⟨_, rfl⟩

theorem reads_failHere (message : Bytes) : Reads n S P k b fun _ => (failHere message : Parse α) :=
  .of_fails fun _ => ⟨_, rfl⟩

theorem reads_pure (r : α) : Reads n S P 0 b fun _ => (pure r : Parse α) :=
  (Silent.pure r).reads

theorem reads_expect {t : Token} (ht : t ≠ .eof) : Reads n S P 1 b fun _ => expect t := by
  have hpeek : (fun _ : Nat => expect t) = fun m => currentToken >>= fun u =>
      (if u ≠ t then failExpected t else pure () : Parse Unit) >>= fun _ => advance := by
    funext m
    rw [expect, check, bind_assoc]
  rw [hpeek]
  refine .peek (fun u _ => ?_) fun h => absurd h (by omega)
  by_cases hut : u = t
  · simp only [hut, ne_eq, not_true_eq_false, if_false, pure_bind]
    exact reads_advance.lastFrom (fun v hv => by rw [hv]; exact ht) (Nat.le_refl b) (Nat.le_refl 1)
  · simp only [ne_eq, hut, not_false_eq_true, if_true]
    exact .of_fails fun _ => ⟨_, rfl⟩

/-- How `expectMatch` fails. -/
def failUnclosed (closer opener : Token) (line : Nat) : Parse Unit := do
  if (← currentLine) = line then failExpected closer
  else
    failNear (expectedText closer ++ bytes " expected (to close " ++ expectedText opener
      ++ bytes (" at line " ++ toString line ++ ")"))

theorem failUnclosed_fails (closer opener : Token) (line : Nat) (s : State) :
    ∃ e, (failUnclosed closer opener line).run s = .error e := by
  obtain ⟨l, hl⟩ : ∃ l, currentLine.run s = .ok (l, s) := ⟨_, rfl⟩
  rw [failUnclosed, run_bind, hl]
  change ∃ e, StateT.run (if l = line then _ else _) s = _
  split <;> exact ⟨_, rfl⟩

theorem expectMatch_eq (closer opener : Token) (line : Nat) : expectMatch closer opener line =
    currentToken >>= fun u => if u = closer then advance else failUnclosed closer opener line := by
  rw [expectMatch, testNext, bind_assoc]
  refine congrArg (currentToken >>= ·) (funext fun u => ?_)
  split
  · rw [bind_assoc]
    exact bind_pure_unit
  · rfl

theorem reads_expectMatch {closer opener : Token} {line : Nat} (ht : closer ≠ .eof) :
    Reads n S P 1 b fun _ => expectMatch closer opener line := by
  rw [expectMatch_eq]
  refine .peek (fun u _ => ?_) fun h => absurd h (by omega)
  by_cases hut : u = closer
  · simp only [if_pos hut]
    exact reads_advance.lastFrom (fun v hv => by rw [hv, hut]; exact ht) (Nat.le_refl b) (Nat.le_refl 1)
  · simp only [if_neg hut]
    exact .of_fails fun s => failUnclosed_fails closer opener line s

theorem Reads.expectMatch {q : Nat → Parse β} {closer opener : Token} {line : Nat} (ht : closer ≠ .eof)
    (h : Reads n S Any (k - 1) (b + 20) q) :
    Reads n S P k b fun m => Parser.expectMatch closer opener line >>= fun _ => q m :=
  (reads_expectMatch (b := b) ht).seq (Nat.le_refl b) fun _ => h

theorem reads_expectName : Reads n S Any 1 0 fun _ => expectName := by
  unfold expectName
  refine .peek (fun u _ => ?_) fun h => absurd h (by omega)
  cases u with
  | name w => exact .consume (fun _ h => by rw [h]; simp) (reads_pure w)
  | _ => exact reads_failNear _

theorem Reads.expect {q : Nat → Parse β} {t : Token} (ht : t ≠ .eof) (h : Reads n S Any (k - 1) (b + 20) q) :
    Reads n S P k b fun m => Parser.expect t >>= fun _ => q m :=
  (reads_expect (b := b) ht).seq (Nat.le_refl b) fun _ => h

theorem reads_testSym {c : Sym} (hSc : ¬ S (.sym c)) : Reads n S P 0 b fun _ => testSym c := by
  have h : Reads n S P 0 b fun _ => testNext (.sym c) >>= fun r => pure r :=
    .test (by simp) hSc (reads_pure true) (reads_pure false)
  simp only [bind_pure] at h
  exact h

theorem Reads.testSym {q : Bool → Nat → Parse β} {c : Sym} (hSc : ¬ S (.sym c))
    (htrue : Reads n S Any (k - 1) (b + 20) (q true)) (hfalse : Reads n S P k b (q false)) :
    Reads n S P k b fun m => Parser.testSym c >>= fun r => q r m :=
  .test (by simp) hSc htrue hfalse

theorem Reads.expectSym {q : Nat → Parse β} {c : Sym} (h : Reads n S Any (k - 1) (b + 20) q) :
    Reads n S P k b fun m => Parser.expectSym c >>= fun _ => q m :=
  .expect (by simp) h

/-- Two readers that go on in the same way. -/
theorem Reads.ite {c : Prop} [Decidable c] {k₁ b₁ : Nat} {p' : Nat → Parse α} {q : α → Nat → Parse β}
    (h : Reads n S Any k₁ b₁ p) (h' : Reads n S Any k₁ b₁ p') (hb : b₁ ≤ b)
    (hq : ∀ a, Reads n S Any (k - k₁) (b + 20 * k₁) (q a)) :
    Reads n S P k b fun m => if c then p m >>= fun a => q a m else p' m >>= fun a => q a m := by
  split
  · exact h.seq hb hq
  · exact h'.seq hb hq

/-- A reader that is given up under a condition. -/
theorem Reads.unless {c : Prop} [Decidable c] {message : Bytes} (h : Reads n S P k b p) :
    Reads n S P k b fun m => if c then failNear message >>= fun _ : Unit => p m else p m := by
  split
  · exact .silent_bind (.failNear _) fun _ => h
  · exact h

/-- A symbol chooses between two readers that go on in the same way. -/
theorem Reads.choose {c : Sym} {b₁ : Nat} {p' : Nat → Parse α} {q : α → Nat → Parse β} (hSc : ¬ S (.sym c))
    (h : Reads n S Any 0 b₁ p) (h' : Reads n S Any 0 b₁ p') (hb : b₁ ≤ b)
    (hq : ∀ a, Reads n S Any k b (q a)) :
    Reads n S P k b fun m => Parser.testSym c >>= fun r =>
      if r = true then p m >>= fun a => q a m else p' m >>= fun a => q a m := by
  have hassoc : (fun m => Parser.testSym c >>= fun r =>
      if r = true then p m >>= fun a => q a m else p' m >>= fun a => q a m) =
      fun m => (Parser.testSym c >>= fun r => if r = true then p m else p' m) >>= fun a => q a m := by
    funext m
    rw [bind_assoc]
    refine congrArg (Parser.testSym c >>= ·) (funext fun r => ?_)
    split <;> rfl
  rw [hassoc]
  have hfirst : Reads n S Any 0 b fun m => Parser.testSym c >>= fun r => if r = true then p m else p' m :=
    .testSym hSc (h.mono (fun _ h => h) (fun _ h => h) (Nat.zero_le _) (by omega))
      (h'.mono (fun _ h => h) (fun _ h => h) (Nat.le_refl _) hb)
  exact hfirst.seq (Nat.le_refl b) hq

/-- What a nested reader does, one level further in. -/
theorem run_nested (p : Parse α) (s : State) :
    (nested p).run s = if maxLevels ≤ s.level + 1 then .error ⟨0, bytes "C stack overflow"⟩
      else (p.run { s with level := s.level + 1 }).map fun r => (r.1, { r.2 with level := r.2.level - 1 }) := by
  by_cases h : maxLevels ≤ s.level + 1
  · simp [nested, h]; rfl
  · simp [nested, h]; rfl

theorem nested_eq_ok {p : Parse α} {s s' : State} {r : α} (h : (nested p).run s = .ok (r, s')) :
    ∃ s₁, p.run { s with level := s.level + 1 } = .ok (r, s₁) ∧ s' = { s₁ with level := s₁.level - 1 } := by
  rw [run_nested] at h
  split at h
  · cases h
  · rcases hp : p.run { s with level := s.level + 1 } with e | ⟨r₁, s₁⟩
    · rw [hp] at h
      cases h
    · rw [hp] at h
      cases h
      exact ⟨s₁, rfl, rfl⟩

theorem Reads.nested (h : Reads n S P k b p) : Reads n S P k b fun m => nested (p m) := by
  intro s r s' hP hrun
  rw [run_nested] at hrun
  split at hrun
  · cases hrun
  · rename_i hlevel
    rcases hp : (p n).run { s with level := s.level + 1 } with e | ⟨r₁, s₁⟩
    · rw [hp] at hrun
      cases hrun
    · rw [hp] at hrun
      cases hrun
      obtain ⟨C, ht, hk, hf, hl, he, hr, hbefore⟩ := h { s with level := s.level + 1 } r₁ s₁ hP hp
      have hl' : s₁.level = s.level + 1 := hl
      refine ⟨C, ht, hk, hf, by simp only [hl']; rfl, he, hr, fun m ts f hm hmeets hreach => ?_⟩
      have hthere := hbefore m ts f hm hmeets hreach
      rw [run_nested, if_neg (show ¬ maxLevels ≤ (s.before (C ++ ts) f).level + 1 from hlevel)]
      rw [show ({ s.before (C ++ ts) f with level := (s.before (C ++ ts) f).level + 1 } : State) =
        State.before { s with level := s.level + 1 } (C ++ ts) f from rfl, hthere]
      rfl

/-- The line of a token that is then consumed. -/
theorem Reads.peekLine {q : Nat → Nat → Parse β} (hk : 0 < k) (h : ∀ line, Reads n S P k b (q line)) :
    Reads n S P k b fun m => currentLine >>= fun line => q line m := by
  intro s r s' hP hrun
  have hline : ∃ l, currentLine.run s = .ok (l, s) := ⟨_, rfl⟩
  obtain ⟨line, hline⟩ := hline
  rw [run_bind, hline] at hrun
  obtain ⟨C, ht, hlen, hf, hl, he, hr, hbefore⟩ := h line s r s' hP hrun
  refine ⟨C, ht, hlen, hf, hl, he, hr, fun m ts f hm hmeets hreach => ?_⟩
  obtain ⟨l, C, rfl⟩ := List.exists_cons_of_length_pos (show 0 < C.length by omega)
  have hl₁ : line = l.line := by
    rw [run_currentLine_cons ht] at hline
    cases hline
    rfl
  rw [run_bind, run_currentLine_cons (s := s.before (l :: C ++ ts) f) rfl, ← hl₁]
  exact hbefore m ts f hm hmeets hreach

theorem run_lookahead {s : State} (h : Reachable (s.tokens.drop 1) s.failure) :
    lookahead.run s = .ok (headToken (s.tokens.drop 1), s) := by
  rw [lookahead, run_bind]
  change StateT.run (checkFailure (s.tokens.drop 1) >>= fun _ => _) s = _
  rw [run_bind, run_checkFailure h]
  rfl

theorem lookahead_eq_ok {s s' : State} {t : Token} (h : lookahead.run s = .ok (t, s')) :
    Reachable (s.tokens.drop 1) s.failure ∧ t = headToken (s.tokens.drop 1) ∧ s' = s := by
  rw [lookahead, run_bind] at h
  change StateT.run (checkFailure (s.tokens.drop 1) >>= fun _ => _) s = _ at h
  obtain ⟨_, s₁, hcheck, hpure⟩ := run_bind_eq_ok h
  obtain ⟨hr, rfl⟩ := reachable_of_checkFailure hcheck
  cases hpure
  exact ⟨hr, rfl, rfl⟩

/-- A look at the token behind one that is then consumed. -/
theorem Reads.peekSecond {q : Token → Nat → Parse β} (hk : 0 < k) (h : ∀ t, Reads n S P k b (q t))
    (hS : ∀ t u, S t → S u → ∀ m, q t m = q u m) : Reads n S P k b fun m => lookahead >>= fun t => q t m := by
  intro s r s' hP hrun
  obtain ⟨t, s₁, hlook, hq⟩ := run_bind_eq_ok hrun
  obtain ⟨-, rfl, rfl⟩ := lookahead_eq_ok hlook
  obtain ⟨C, ht, hlen, hf, hl, he, hr, hbefore⟩ := h _ s₁ r s' hP hq
  refine ⟨C, ht, hlen, hf, hl, he, hr, fun m ts f hm hmeets hreach => ?_⟩
  obtain ⟨l, C, rfl⟩ := List.exists_cons_of_length_pos (show 0 < C.length by omega)
  have hsame : q (headToken (C ++ ts)) = q (headToken (s₁.tokens.drop 1)) := by
    rw [ht]
    change _ = q (headToken (C ++ s'.tokens))
    cases C with
    | cons l' C => rfl
    | nil =>
      rcases hmeets with heq | ⟨hs₁, hs₂⟩
      · rw [List.nil_append, List.nil_append, heq]
      · exact funext (hS _ _ hs₂ hs₁)
  rw [run_bind, run_lookahead (s := s₁.before (l :: C ++ ts) f) (hreach.append C)]
  change (q (headToken (C ++ ts)) m).run _ = _
  rw [hsame]
  exact hbefore m ts f hm hmeets hreach

/-- The contents of a block. -/
theorem Reads.inBlock {isLoop : Bool} (h : Reads n S P k b p) : Reads n S P k b fun m => inBlock isLoop (p m) :=
  .silent_bind (silent_enterBlock isLoop) fun _ => h.bind_silent fun r => silent_leaveBlock.bind fun _ => .pure r

end TokenRules

/-! ## Declarations of variables -/

/-- What comes behind the names and the initial values of a declaration. -/
def declareLocals (names : List Local) (values : List Expr) : Parse (List Stmt) := do
  let line ← lastLine
  checkLocals names.length
  let values := values.map (Expr.settle line)
  declare (withConstant names values)
  if names.any fun l => isClose l.binding then modifyBlock fun b => { b with insideClose := true }
  return [.locals (names.map fun l => (l.name, isClose l.binding)) values line]

theorem localStmt_succ (n : Nat) : localStmt (n + 1) = (do
    let names ← attributedNames n false
    let values ← if ← testSym .assign then exprList n else pure []
    declareLocals names values) := by
  rw [localStmt]
  rfl

/-- What comes behind the initial values reads no token. -/
theorem silent_declareLocals (names : List Local) (values : List Expr) : Silent (declareLocals names values) := by
  rw [declareLocals]
  refine silent_lastLine.bind fun line => (silent_checkLocals _).bind fun _ => (silent_declare _).bind fun _ => ?_
  dsimp only
  split
  · exact (silent_modifyBlock _).bind fun _ => .pure _
  · exact (Silent.pure _).bind fun _ => .pure _

end Scratchpad.Lua.Parser
