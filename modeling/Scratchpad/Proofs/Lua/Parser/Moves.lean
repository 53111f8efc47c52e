import Scratchpad.Proofs.Lua.Parser.Reads

/-!
# Readers and the tokens that they leave

`Moves P Q p` says of the reader `p` that, begun at tokens with `P`, it leaves tokens with `Q` if it succeeds.
The rules follow the way in which readers are put together.
-/

namespace Scratchpad.Lua.Parser

variable {α β : Type}

/-- If `p` succeeds at tokens with `P`, then it leaves tokens with `Q`. -/
def Moves (P Q : List Lexeme → Prop) (p : Parse α) : Prop :=
  ∀ s r s', P s.tokens → p.run s = .ok (r, s') → Q s'.tokens

section Rules

variable {P M Q : List Lexeme → Prop} {p : Parse α}

theorem Moves.mono {P' Q' : List Lexeme → Prop} (h : Moves P Q p) (hpre : ∀ ts, P' ts → P ts)
    (hpost : ∀ ts, Q ts → Q' ts) : Moves P' Q' p :=
  fun s r s' hs hrun => hpost _ (h s r s' (hpre _ hs) hrun)

theorem Moves.bind {q : α → Parse β} (hp : Moves P M p) (hq : ∀ a, Moves M Q (q a)) :
    Moves P Q (p >>= q) := by
  intro s r s' hs hrun
  obtain ⟨a, s₁, hrun₁, hrun₂⟩ := run_bind_eq_ok hrun
  exact hq a s₁ r s' (hp s a s₁ hs hrun₁) hrun₂

theorem Moves.or {P' : List Lexeme → Prop} (h : Moves P Q p) (h' : Moves P' Q p) :
    Moves (fun ts => P ts ∨ P' ts) Q p :=
  fun s r s' hs hrun => hs.elim (fun hs => h s r s' hs hrun) fun hs => h' s r s' hs hrun

theorem Moves.of_fails (h : ∀ s, P s.tokens → ∃ e, p.run s = .error e) : Moves P Q p := by
  intro s r s' hs hrun
  obtain ⟨e, he⟩ := h s hs
  rw [he] at hrun
  cases hrun

theorem Moves.failNear {message : Bytes} : Moves P Q (failNear message : Parse α) :=
  .of_fails fun _ _ => ⟨_, rfl⟩

theorem Moves.pure (r : α) : Moves P P (pure r : Parse α) := by
  intro s r' s' hs hrun
  cases hrun
  exact hs

theorem Moves.ite {c : Prop} [Decidable c] {p' : Parse α} (h : c → Moves P Q p) (h' : ¬ c → Moves P Q p') :
    Moves P Q (if c then p else p') := by
  split
  · exact h ‹_›
  · exact h' ‹_›

theorem Silent.moves {a : Parse α} (h : Silent a) : Moves P P a := by
  intro s r s' hs hrun
  rw [(h s r s' hrun).1]
  exact hs

theorem moves_currentLine : Moves P P currentLine := by
  intro s r s' hs hrun
  cases hrun
  exact hs

theorem Moves.silent {a : Parse α} {q : α → Parse β} (ha : Silent a) (hq : ∀ r, Moves P Q (q r)) :
    Moves P Q (a >>= q) :=
  ha.moves.bind hq

theorem Moves.line {q : Nat → Parse β} (hq : ∀ l, Moves P Q (q l)) : Moves P Q (currentLine >>= q) :=
  moves_currentLine.bind hq

theorem Moves.thenPure {r : α → β} (h : Moves P Q p) : Moves P Q (p >>= fun a => Pure.pure (r a)) :=
  h.bind fun _ => .pure _

theorem Moves.peek {q : Token → Parse β} (h : ∀ t, Moves (fun ts => P ts ∧ headToken ts = t) Q (q t)) :
    Moves P Q (currentToken >>= q) := by
  intro s r s' hs hrun
  obtain ⟨t, s₁, hrun₁, hrun₂⟩ := run_bind_eq_ok hrun
  rw [run_currentToken] at hrun₁
  cases hrun₁
  exact h _ s r s' ⟨hs, rfl⟩ hrun₂

/-- Which token is the current one does not matter. -/
theorem Moves.look {q : Token → Parse β} (h : ∀ t, Moves P Q (q t)) : Moves P Q (currentToken >>= q) :=
  .peek fun t => (h t).mono (fun _ hts => hts.1) fun _ h => h

/-- Two readers that go on in the same way. -/
theorem Moves.iteBind {c : Prop} [Decidable c] {p' : Parse α} {q : α → Parse β} (h : Moves P M p)
    (h' : Moves P M p') (hq : ∀ a, Moves M Q (q a)) :
    Moves P Q (if c then p >>= q else p' >>= q) :=
  .ite (fun _ => h.bind hq) fun _ => h'.bind hq

theorem Moves.nested (h : Moves P Q p) : Moves P Q (nested p) := by
  intro s r s' hs hrun
  obtain ⟨s₁, hp, rfl⟩ := nested_eq_ok hrun
  exact h { s with level := s.level + 1 } r s₁ hs hp

theorem Moves.inBlock {isLoop : Bool} (h : Moves P Q p) : Moves P Q (inBlock isLoop p) :=
  .silent (silent_enterBlock isLoop) fun _ => h.bind fun r => .silent silent_leaveBlock fun _ => .pure r

/-- A token is read if it is the current one. -/
theorem Moves.test {q : Bool → Parse β} {t : Token}
    (hadvance : Moves (fun ts => P ts ∧ headToken ts = t) M advance) (htrue : Moves M Q (q true))
    (hfalse : Moves (fun ts => P ts ∧ headToken ts ≠ t) Q (q false)) : Moves P Q (testNext t >>= q) := by
  rw [testNext, bind_assoc]
  refine .peek fun u => ?_
  by_cases hu : u = t
  · rw [if_pos hu, bind_assoc]
    exact (hadvance.mono (fun ts h => ⟨h.1, h.2.trans hu⟩) fun _ h => h).bind fun _ => htrue
  · rw [if_neg hu, pure_bind]
    exact hfalse.mono (fun ts h => ⟨h.1, h.2 ▸ hu⟩) fun _ h => h

theorem moves_expect {t : Token} (hadvance : Moves (fun ts => P ts ∧ headToken ts = t) Q advance) :
    Moves P Q (expect t) := by
  rw [expect, check, bind_assoc]
  refine .peek fun u => ?_
  by_cases hu : u = t
  · rw [if_neg (fun h => h hu), pure_bind]
    exact hadvance.mono (fun ts h => ⟨h.1, h.2.trans hu⟩) fun _ h => h
  · rw [if_pos hu]
    exact .of_fails fun _ _ => ⟨_, rfl⟩

theorem moves_expectMatch {closer opener : Token} {line : Nat}
    (hadvance : Moves (fun ts => P ts ∧ headToken ts = closer) Q advance) :
    Moves P Q (expectMatch closer opener line) := by
  rw [expectMatch_eq]
  refine .peek fun u => .ite (fun hu => ?_) fun _ => ?_
  · exact hadvance.mono (fun ts h => ⟨h.1, h.2.trans hu⟩) fun _ h => h
  · exact .of_fails fun s _ => failUnclosed_fails closer opener line s

/-- The tokens behind one that was read. -/
theorem advance_tokens {s s' : State} {r : Unit} {l : Lexeme} {ts : List Lexeme} (hs : s.tokens = l :: ts)
    (hrun : advance.run s = .ok (r, s')) : l.token = .eof ∧ s'.tokens = l :: ts ∨ s'.tokens = ts := by
  by_cases hl : l.token = .eof
  · rw [run_advance_eof (by rw [hs]; exact hl)] at hrun
    cases hrun
    exact .inl ⟨hl, hs⟩
  · have hhead : headToken s.tokens ≠ .eof := by rw [hs]; exact hl
    obtain ⟨l', ts', hs', -, -, rfl⟩ := advance_eq_ok hhead hrun
    rw [hs] at hs'
    obtain ⟨-, rfl⟩ := List.cons.inj hs'
    exact .inr rfl

/-- A token with `T`, and `Q` behind it. -/
def Next (T : Token → Prop) (Q : List Lexeme → Prop) (ts : List Lexeme) : Prop :=
  ∃ l ts', ts = l :: ts' ∧ T l.token ∧ Q ts'

theorem Next.head {T : Token → Prop} {ts : List Lexeme} : Next T Q ts → T (headToken ts) := by
  rintro ⟨l, ts', rfl, hl, -⟩
  exact hl

theorem moves_advance_next {T : Token → Prop} (hT : ¬ T .eof) : Moves (Next T Q) Q advance := by
  rintro s r s' ⟨l, ts, hs, hl, hts⟩ hrun
  rcases advance_tokens hs hrun with ⟨heof, -⟩ | hs'
  · exact absurd (heof ▸ hl) hT
  · exact hs' ▸ hts

end Rules

/-! ## Where no expression begins -/

/-- No tokens. -/
abbrev Nowhere : List Lexeme → Prop := fun _ => False

/-- A reader that never succeeds is not gone on from. -/
theorem Moves.stop {P Q : List Lexeme → Prop} {p : Parse α} {q : α → Parse β} (h : Moves P Nowhere p) :
    Moves P Q (p >>= q) :=
  h.bind fun _ _ _ _ hs => hs.elim

/-- No primary expression begins here. -/
def Barred (ts : List Lexeme) : Prop :=
  (∀ w, headToken ts ≠ .name w) ∧ headToken ts ≠ .sym .lparen

theorem moves_primary_nowhere (n : Nat) : Moves Barred Nowhere (primary n) := by
  cases n with
  | zero => rw [primary]; exact .failNear
  | succ n =>
    rw [primary]
    refine .peek fun t => ?_
    rintro s r s' ⟨⟨hname, hparen⟩, rfl⟩
    split
    · exact absurd ‹_› (hname _)
    · exact absurd ‹_› hparen
    · exact Moves.failNear s r s' (P := fun _ => True) trivial

theorem moves_expectName_unnamed : Moves (fun ts => ∀ w, headToken ts ≠ .name w) Nowhere expectName := by
  unfold expectName
  refine .peek fun t => ?_
  rintro s r s' ⟨hname, rfl⟩
  split
  · exact absurd ‹_› (hname _)
  · exact Moves.failNear s r s' (P := fun _ => True) trivial

theorem moves_expectName_nowhere : Moves Barred Nowhere expectName :=
  moves_expectName_unnamed.mono (fun _ h => h.1) fun _ h => h

end Scratchpad.Lua.Parser
