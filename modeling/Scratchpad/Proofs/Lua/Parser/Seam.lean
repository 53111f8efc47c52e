import Scratchpad.Proofs.Lua.Parser.Grammar
import Scratchpad.Proofs.Lua.Parser.Moves

/-!
# Where readers stop at the seam of two texts

A program `T₀` is followed by lines `A` that copy a variable, `_ENV["x"] = x`, or that begin with `return` or `do`
(`Border`). The lines close nothing, and if they begin with a name, then the last token of the program is neither a comma
nor a dot (`Seam`). A reader that is still inside the program (`Inside`) stops inside it, or else behind the name
(`AfterName`) or behind the key (`AfterKey`) at the beginning of the lines, where no statement can begin. Main
statements: `Seam.stops` for the readers of expressions and `Seam.moves_statement` for statements.
-/

namespace Scratchpad.Lua.Parser

variable {α β : Type}

/-! ## Positions at the seam -/

/-- The tokens that close a construct. -/
def isCloser : Token → Bool
  | .sym .rparen | .sym .rbrace | .sym .dcolon | .word .kEnd | .word .kUntil => true
  | _ => false

/-- The tokens that may begin the lines behind a program. -/
def opensLines : Token → Bool
  | .name _ | .word .kReturn | .word .kDo => true
  | _ => false

/-- Tokens that begin with `return`, with `do` or with a name that a key in brackets is assigned to. -/
structure Border (A : List Lexeme) : Prop where
  head : headToken A = .word .kReturn ∨ headToken A = .word .kDo ∨
    ∃ w x rest, A.map Lexeme.token = .name w :: .sym .lbracket :: .str x :: .sym .rbracket :: .sym .assign :: rest

/-- Tokens that may follow a program without becoming a part of its last statement. -/
structure Seam (T₀ A : List Lexeme) : Prop extends Border A where
  last : ∀ w, headToken A = .name w → ∀ l ∈ T₀.getLast?, l.token ≠ .sym .comma ∧ l.token ≠ .sym .dot
  closed : ∀ l ∈ A, isCloser l.token = false

section Positions

variable (T₀ A : List Lexeme)

/-- Anywhere in the program or the lines behind it. -/
def Somewhere (ts : List Lexeme) : Prop :=
  ts <:+ T₀ ++ A

/-- In the program or at its end. -/
def Inside (ts : List Lexeme) : Prop :=
  ∃ T, T <:+ T₀ ∧ ts = T ++ A

/-- Before a token of the program. -/
def Inner (ts : List Lexeme) : Prop :=
  ∃ l T, l :: T <:+ T₀ ∧ ts = l :: T ++ A

/-- Where the program goes on, or no expression begins. -/
def Onward (ts : List Lexeme) : Prop :=
  Inner T₀ A ts ∨ Barred ts

/-- Behind the name that begins the lines. -/
def AfterName (ts : List Lexeme) : Prop :=
  ∃ l w, A = l :: ts ∧ l.token = .name w

/-- Behind the name and the key that begin the lines. -/
def AfterKey (ts : List Lexeme) : Prop :=
  headToken ts = .sym .assign

/-- Where the readers of expressions stop. -/
def Edge (ts : List Lexeme) : Prop :=
  Inside T₀ A ts ∨ AfterKey ts

/-- Where the readers of names stop. -/
def Named (ts : List Lexeme) : Prop :=
  Inside T₀ A ts ∨ AfterName A ts

end Positions

variable {T₀ A : List Lexeme}

theorem Inner.inside {ts : List Lexeme} : Inner T₀ A ts → Inside T₀ A ts := by
  rintro ⟨l, T, hT, hts⟩
  exact ⟨l :: T, hT, hts⟩

theorem Inside.somewhere {ts : List Lexeme} : Inside T₀ A ts → Somewhere T₀ A ts := by
  rintro ⟨T, hT, rfl⟩
  exact List.suffix_append_self_iff.2 hT

theorem opensLines_eq_false {t : Token} (hname : ∀ w, t ≠ .name w) (hreturn : t ≠ .word .kReturn)
    (hdo : t ≠ .word .kDo) : opensLines t = false := by
  unfold opensLines
  split
  · exact absurd rfl (hname _)
  · exact absurd rfl hreturn
  · exact absurd rfl hdo
  · rfl

theorem Border.opensLines_head (h : Border A) : opensLines (headToken A) = true := by
  rcases h.head with hA | hA | ⟨w, x, rest, hA⟩
  · rw [hA]
    rfl
  · rw [hA]
    rfl
  · cases A with
    | nil => cases hA
    | cons l A =>
      obtain ⟨hl, -⟩ := List.cons.inj hA
      rw [headToken_cons, hl]
      rfl

theorem Border.head_ne (h : Border A) {t : Token} (ht : opensLines t = false) : headToken A ≠ t := by
  rintro rfl
  rw [h.opensLines_head] at ht
  cases ht

/-- At a token that does not begin the lines the program is not at its end. -/
theorem inner_of_head {ts : List Lexeme} (hts : Inside T₀ A ts) (hne : headToken A ≠ headToken ts) :
    Inner T₀ A ts := by
  obtain ⟨T, hT, rfl⟩ := hts
  cases T with
  | nil => exact absurd rfl hne
  | cons l T => exact ⟨l, T, hT, rfl⟩

/-- Behind a comma or a dot of the program there is a token of the program, or nothing that could go on there. -/
theorem Seam.onward_behind (h : Seam T₀ A) {l : Lexeme} {T : List Lexeme} (hT : l :: T <:+ T₀)
    (hl : l.token = .sym .comma ∨ l.token = .sym .dot) : Onward T₀ A (T ++ A) := by
  cases T with
  | cons l' T => exact .inl ⟨l', T, (List.suffix_cons l _).trans hT, rfl⟩
  | nil =>
    refine .inr ⟨fun w hw => ?_, h.head_ne rfl⟩
    have hlast : l ∈ T₀.getLast? := by
      obtain ⟨front, rfl⟩ := hT
      simp
    obtain ⟨hcomma, hdot⟩ := h.last w hw l hlast
    exact (hl.elim hcomma hdot).elim

theorem moves_advance_inner : Moves (Inner T₀ A) (Inside T₀ A) advance := by
  rintro s r s' ⟨l, T, hT, hs⟩ hrun
  rcases advance_tokens hs hrun with ⟨-, hs'⟩ | hs'
  · exact ⟨l :: T, hT, hs'⟩
  · exact ⟨T, (List.suffix_cons l T).trans hT, hs'⟩

/-- A token that does not begin the lines is one of the program. -/
theorem Border.moves_advance (h : Border A) {t : Token} (ht : opensLines t = false) :
    Moves (fun ts => Inside T₀ A ts ∧ headToken ts = t) (Inside T₀ A) advance :=
  moves_advance_inner.mono (fun _ hts => inner_of_head hts.1 (hts.2 ▸ h.head_ne ht)) fun _ h => h

/-- A name is one of the program or that at the beginning of the lines. -/
theorem moves_advance_name {w : Bytes} :
    Moves (fun ts => Inside T₀ A ts ∧ headToken ts = .name w) (Named T₀ A) advance := by
  rintro s r s' ⟨⟨T, hT, hs⟩, hhead⟩ hrun
  cases T with
  | cons l T => exact .inl (moves_advance_inner s r s' ⟨l, T, hT, hs⟩ hrun)
  | nil =>
    rw [hs] at hhead
    cases A with
    | nil => cases hhead
    | cons l A =>
      have hl : l.token = .name w := hhead
      rcases advance_tokens hs hrun with ⟨heof, -⟩ | hs'
      · rw [hl] at heof
        cases heof
      · exact .inr ⟨l, w, by rw [hs'], hl⟩

/-- Behind a comma or a dot the program goes on. -/
theorem Seam.moves_advance_on (h : Seam T₀ A) {t : Token} (ht : t = .sym .comma ∨ t = .sym .dot) :
    Moves (fun ts => Inside T₀ A ts ∧ headToken ts = t) (Onward T₀ A) advance := by
  rintro s r s' ⟨hts, hhead⟩ hrun
  have hne : headToken A ≠ headToken s.tokens := by
    rw [hhead]
    rcases ht with rfl | rfl <;> exact h.head_ne rfl
  obtain ⟨l, T, hT, hs⟩ := inner_of_head hts hne
  rw [hs] at hhead
  have hl : l.token = t := hhead
  rcases advance_tokens hs hrun with ⟨heof, -⟩ | hs'
  · rw [hl] at heof
    subst heof
    rcases ht with ht | ht <;> cases ht
  · rw [hs']
    exact h.onward_behind hT (hl ▸ ht)

/-- What is closed is closed in the program. -/
theorem Seam.moves_advance_closer (h : Seam T₀ A) {t : Token} (ht : isCloser t = true) :
    Moves (fun ts => Somewhere T₀ A ts ∧ headToken ts = t) (Inside T₀ A) advance := by
  rintro s r s' ⟨⟨front, hfront⟩, hhead⟩ hrun
  refine moves_advance_inner s r s' ?_ hrun
  have hA : ∀ l ∈ A, l.token ≠ t := by
    rintro l hl rfl
    rw [h.closed l hl] at ht
    cases ht
  rcases hs : s.tokens with _ | ⟨l, ts⟩
  · rw [hs] at hhead
    subst hhead
    cases ht
  · rw [hs] at hfront hhead
    have hl : l.token = t := hhead
    rcases List.append_eq_append_iff.1 hfront with ⟨T, hT, hts⟩ | ⟨C, -, hC⟩
    · cases T with
      | nil => exact absurd hl (hA l (by rw [List.nil_append] at hts; rw [← hts]; exact List.mem_cons_self))
      | cons l' T =>
        obtain ⟨rfl, rfl⟩ := List.cons.inj hts
        exact ⟨l, T, ⟨front, hT.symm⟩, rfl⟩
    · exact absurd hl (hA l (by rw [hC]; simp))

/-- A token that begins no value is one of the program. -/
theorem Border.moves_advance_edge (h : Border A) {t : Token} (ht : opensLines t = false) (hassign : t ≠ .sym .assign) :
    Moves (fun ts => Edge T₀ A ts ∧ headToken ts = t) (Inside T₀ A) advance := by
  rintro s r s' ⟨hin | hkey, hhead⟩ hrun
  · exact h.moves_advance ht s r s' ⟨hin, hhead⟩ hrun
  · exact absurd (hhead.symm.trans hkey) hassign

/-- No reader leaves the tokens. -/
theorem Reads.moves {n k b : Nat} {S : Token → Prop} {p : Nat → Parse α} (h : Reads n S Any k b p) :
    Moves (Somewhere T₀ A) (Somewhere T₀ A) (p n) := by
  intro s r s' hs hrun
  obtain ⟨C, hC, -⟩ := h s r s' trivial hrun
  exact (hC ▸ List.suffix_append C s'.tokens).trans hs

theorem moves_advance_somewhere : Moves (Somewhere T₀ A) (Somewhere T₀ A) advance := by
  intro s r s' hs hrun
  rcases hts : s.tokens with _ | ⟨l, ts⟩
  · obtain ⟨tokens, failure, last, funcs, level, source⟩ := s
    obtain rfl : tokens = [] := hts
    cases hrun
    exact hs
  · rw [hts] at hs
    rcases advance_tokens hts hrun with ⟨-, hs'⟩ | hs'
    · exact hs' ▸ hs
    · exact hs' ▸ (List.suffix_cons l ts).trans hs

theorem moves_expect_somewhere (t : Token) : Moves (Somewhere T₀ A) (Somewhere T₀ A) (expect t) :=
  moves_expect (moves_advance_somewhere.mono (fun _ hts => hts.1) fun _ h => h)

/-! ## Readers that close what they open -/

section Closed

variable {Pre Post : List Lexeme → Prop}

theorem Moves.somewhere {p : Parse α} (h : Moves (Somewhere T₀ A) Post p) : Moves (Inside T₀ A) Post p :=
  h.mono (fun _ => Inside.somewhere) fun _ h => h

/-- A closing token, and what follows it. -/
theorem Moves.close (h : Seam T₀ A) {closer opener : Token} {line : Nat} {q : Parse β}
    (hcloser : isCloser closer = true) (hq : Moves (Inside T₀ A) Post q) :
    Moves (Somewhere T₀ A) Post (expectMatch closer opener line >>= fun _ => q) :=
  (moves_expectMatch (h.moves_advance_closer hcloser)).bind fun _ => hq

theorem moves_constructor (h : Seam T₀ A) (n : Nat) : Moves (Somewhere T₀ A) (Inside T₀ A) (constructor n) := by
  cases n with
  | zero => rw [constructor]; exact .failNear
  | succ n =>
    rw [constructor]
    refine .line fun line => (moves_expect_somewhere _).bind fun _ => ?_
    refine (grammar n).fieldList.moves.bind fun fields => .close h rfl ?_
    exact .silent silent_lastLine fun _ => .pure _

theorem moves_callArgs (h : Seam T₀ A) (n : Nat) : Moves (Inside T₀ A) (Inside T₀ A) (callArgs n) := by
  cases n with
  | zero => rw [callArgs]; exact .failNear
  | succ n =>
    rw [callArgs]
    refine .line fun line => .peek fun t => ?_
    split
    · refine (h.moves_advance rfl).bind fun _ => .test (h.moves_advance rfl) (.pure _) ?_
      refine Moves.mono ?_ (fun _ hts => hts.1.somewhere) fun _ h => h
      refine (grammar n).exprList.moves.bind fun args => .close h rfl ?_
      exact .silent silent_lastLine fun _ => .pure _
    · refine Moves.thenPure (Moves.mono (moves_constructor h n) (fun _ hts => hts.1.somewhere) fun _ h => h)
    · exact (h.moves_advance rfl).thenPure
    · exact .failNear

theorem moves_funcBody (h : Seam T₀ A) (n : Nat) (isMethod : Bool) (line : Nat) :
    Moves (Somewhere T₀ A) (Inside T₀ A) (funcBody n isMethod line) := by
  cases n with
  | zero => rw [funcBody]; exact .failNear
  | succ n =>
    rw [funcBody]
    refine .silent (silent_pushFunc _) fun _ => .silent (silent_enterBlock _) fun _ => ?_
    refine (moves_expect_somewhere _).bind fun _ => ?_
    refine .look fun t => ?_
    dsimp only
    refine .iteBind (.pure _) (reads_paramList n).moves fun r => ?_
    refine .silent (silent_checkLocals _) fun _ => .silent (silent_declare _) fun _ => ?_
    refine .silent (silent_modifyFunc _) fun _ => (moves_expect_somewhere _).bind fun _ => ?_
    refine (grammar n).statements.moves.bind fun body => .close h rfl ?_
    refine .silent silent_leaveBlock fun _ => .silent silent_popFunc fun _ => ?_
    exact (silent_source.bind fun _ => .pure _).moves

end Closed

/-! ## The name and the key at the beginning of the lines -/

/-- Between the key and its closing bracket. -/
def BeforeBracket : List Lexeme → Prop :=
  Next (· = .sym .rbracket) AfterKey

/-- Between the opening bracket and the key. -/
def BeforeKey : List Lexeme → Prop :=
  Next (fun t => ∃ x, t = .str x) BeforeBracket

section Keys

variable {Post : List Lexeme → Prop}

theorem AfterName.next (h : Border A) {ts : List Lexeme} (hts : AfterName A ts) :
    Next (· = .sym .lbracket) BeforeKey ts := by
  obtain ⟨l, w, rfl, hl⟩ := hts
  rcases h.head with hA | hA | ⟨w', x, rest, hA⟩
  · rw [headToken_cons, hl] at hA
    cases hA
  · rw [headToken_cons, hl] at hA
    cases hA
  · obtain ⟨-, hA⟩ := List.cons.inj hA
    obtain ⟨a, ts, rfl, ha, hA⟩ := List.map_eq_cons_iff.1 hA
    obtain ⟨b, ts, rfl, hb, hA⟩ := List.map_eq_cons_iff.1 hA
    obtain ⟨c, ts, rfl, hc, hA⟩ := List.map_eq_cons_iff.1 hA
    obtain ⟨d, ts, rfl, hd, -⟩ := List.map_eq_cons_iff.1 hA
    exact ⟨a, _, rfl, ha, b, _, rfl, ⟨x, hb⟩, c, _, rfl, hc, hd⟩

theorem moves_operators_bracket (n limit : Nat) (e : Expr) :
    Moves BeforeBracket BeforeBracket (operators n limit e) := by
  cases n with
  | zero => rw [operators]; exact .failNear
  | succ n =>
    rw [operators]
    refine .peek fun t => ?_
    split
    · rename_i i left right hinfix
      refine .of_fails fun s hs => ?_
      rw [← hs.2, hs.1.head] at hinfix
      cases hinfix
    · exact .mono (.pure e) (fun _ hts => hts.1) fun _ h => h

theorem moves_subExpr_key (n limit : Nat) : Moves BeforeKey BeforeBracket (subExpr n limit) := by
  cases n with
  | zero => rw [subExpr]; exact .failNear
  | succ n =>
    rw [subExpr]
    refine .nested (.peek fun t => ?_)
    dsimp only
    split
    · rename_i op hop
      refine .of_fails fun s hs => ?_
      obtain ⟨x, hx⟩ := hs.1.head
      rw [← hs.2, hx] at hop
      cases hop
    · refine Moves.bind (M := BeforeBracket) ?_ fun e => moves_operators_bracket n limit e
      cases n with
      | zero => rw [simpleExpr]; exact .failNear
      | succ n =>
        rw [simpleExpr]
        refine .peek fun t' => ?_
        rintro s r s' ⟨⟨hs, -⟩, hhead⟩
        obtain ⟨x, hx⟩ := hs.head
        rw [hx] at hhead
        subst hhead
        exact (moves_advance_next (by rintro ⟨x, hx⟩; cases hx)).thenPure s r s' hs

theorem moves_bracketKey_name (h : Border A) (n : Nat) : Moves (AfterName A) AfterKey (bracketKey n) := by
  cases n with
  | zero => rw [bracketKey]; exact .failNear
  | succ n =>
    rw [bracketKey]
    refine ((moves_advance_next (by simp)).mono (fun _ => AfterName.next h) fun _ h => h).bind fun _ => ?_
    refine (moves_subExpr_key n 0).bind fun key => .silent silent_lastLine fun _ => ?_
    have hclose : Moves (fun ts => BeforeBracket ts ∧ headToken ts = .sym .rbracket) AfterKey advance :=
      (moves_advance_next (by simp)).mono (fun _ hts => hts.1) fun _ h => h
    exact (moves_expect hclose).thenPure

end Keys

/-! ## Expressions -/

/-- Where the readers of expressions with the fuel `n` stop. -/
structure Stops (T₀ A : List Lexeme) (n : Nat) : Prop where
  subExpr : ∀ limit, Moves (Inside T₀ A) (Edge T₀ A) (subExpr n limit)
  operators : ∀ limit e, Moves (Edge T₀ A) (Edge T₀ A) (operators n limit e)
  simpleExpr : Moves (Inside T₀ A) (Edge T₀ A) (simpleExpr n)
  suffixed : Moves (Inside T₀ A) (Edge T₀ A) (suffixed n)
  suffixes : ∀ e, Moves (Inside T₀ A) (Inside T₀ A) (suffixes n e)
  bracketKey : Moves (fun ts => Inside T₀ A ts ∧ headToken ts = .sym .lbracket) (Inside T₀ A) (bracketKey n)
  exprList : Moves (Inside T₀ A) (Edge T₀ A) (exprList n)

section Expressions

variable {n : Nat}

theorem moves_expectName : Moves (Inside T₀ A) (Named T₀ A) expectName := by
  unfold expectName
  refine .peek fun t => ?_
  split
  · exact moves_advance_name.thenPure
  · exact .failNear

theorem moves_expectName_onward : Moves (Onward T₀ A) (Inside T₀ A) expectName := by
  refine .or ?_ (moves_expectName_nowhere.mono (fun _ h => h) fun _ => False.elim)
  unfold expectName
  refine .look fun t => ?_
  split
  · exact moves_advance_inner.thenPure
  · exact .failNear

theorem moves_primary (h : Seam T₀ A) (n : Nat) : Moves (Inside T₀ A) (Named T₀ A) (primary n) := by
  cases n with
  | zero => rw [primary]; exact .failNear
  | succ n =>
    rw [primary]
    refine .peek fun t => ?_
    split
    · exact moves_advance_name.bind fun _ => .silent (silent_nameExpr _) fun _ => .pure _
    · refine .line fun line => (h.moves_advance rfl).bind fun _ => Moves.somewhere ?_
      refine (grammar n).subExpr 0 |>.moves.bind fun e => .close h rfl ?_
      exact .silent silent_lastLine fun _ => (Moves.pure _).mono (fun _ h => h) fun _ => .inl
    · exact .failNear

/-- A primary expression that begins in the program ends in it. -/
theorem moves_primary_inner (h : Seam T₀ A) (n : Nat) : Moves (Inner T₀ A) (Inside T₀ A) (primary n) := by
  cases n with
  | zero => rw [primary]; exact .failNear
  | succ n =>
    rw [primary]
    refine .look fun t => ?_
    split
    · exact moves_advance_inner.bind fun _ => .silent (silent_nameExpr _) fun _ => .pure _
    · refine .line fun line => moves_advance_inner.bind fun _ => Moves.somewhere ?_
      refine (grammar n).subExpr 0 |>.moves.bind fun e => .close h rfl ?_
      exact .silent silent_lastLine fun _ => .pure _
    · exact .failNear

theorem moves_primary_onward (h : Seam T₀ A) (n : Nat) : Moves (Onward T₀ A) (Inside T₀ A) (primary n) :=
  .or (moves_primary_inner h n) ((moves_primary_nowhere n).mono (fun _ h => h) fun _ => False.elim)

theorem moves_subExpr (h : Seam T₀ A) (st : Stops T₀ A n) (limit : Nat) :
    Moves (Inside T₀ A) (Edge T₀ A) (subExpr (n + 1) limit) := by
  rw [subExpr]
  refine .nested (.peek fun t => ?_)
  dsimp only
  split
  · rename_i op hop
    have hopens : opensLines t = false := by
      refine opensLines_eq_false (fun w ht => ?_) (fun ht => ?_) (fun ht => ?_) <;> subst ht <;> cases hop
    refine .line fun line => (h.moves_advance hopens).bind fun _ => (st.subExpr _).bind fun e => ?_
    exact .silent silent_lastLine fun _ => .silent (.pure _) fun first => st.operators limit first
  · exact (st.simpleExpr.mono (fun _ hts => hts.1) fun _ h => h).bind fun first => st.operators limit first

theorem moves_operators (h : Seam T₀ A) (st : Stops T₀ A n) (limit : Nat) (e : Expr) :
    Moves (Edge T₀ A) (Edge T₀ A) (operators (n + 1) limit e) := by
  have hstay : ∀ t, Moves (fun ts => Edge T₀ A ts ∧ headToken ts = t) (Edge T₀ A) (pure e : Parse Expr) := fun t =>
    (Moves.pure e).mono (fun _ hts => hts.1) fun _ h => h
  rw [operators]
  refine .peek fun t => ?_
  split
  · rename_i i left right hinfix
    have hopens : opensLines t = false := by
      refine opensLines_eq_false (fun w ht => ?_) (fun ht => ?_) (fun ht => ?_) <;> subst ht <;> cases hinfix
    refine .ite (fun _ => .line fun line => (h.moves_advance_edge hopens ?_).bind fun _ => ?_) fun _ => hstay t
    · rintro rfl
      cases hinfix
    · refine .silent silent_lastLine fun _ => (st.subExpr _).bind fun r => ?_
      exact .silent silent_lastLine fun _ => st.operators limit _
  · exact hstay t

theorem moves_simpleExpr (h : Seam T₀ A) (st : Stops T₀ A n) :
    Moves (Inside T₀ A) (Edge T₀ A) (simpleExpr (n + 1)) := by
  have hconstant : ∀ {t : Token} (e : Expr), opensLines t = false →
      Moves (fun ts => Inside T₀ A ts ∧ headToken ts = t) (Edge T₀ A) (advance >>= fun _ => (pure e : Parse Expr)) :=
    fun e ht => (h.moves_advance ht).bind fun _ => (Moves.pure e).mono (fun _ h => h) fun _ => .inl
  rw [simpleExpr]
  refine .peek fun t => ?_
  split
  · exact hconstant _ rfl
  · exact hconstant _ rfl
  · exact hconstant _ rfl
  · exact hconstant _ rfl
  · exact hconstant _ rfl
  · refine .silent silent_func fun _ => .ite (fun _ => ?_) fun _ => .failNear
    exact hconstant _ rfl
  · exact (moves_constructor h n).mono (fun _ hts => hts.1.somewhere) fun _ => .inl
  · refine .line fun line => (h.moves_advance rfl).bind fun _ => Moves.thenPure ?_
    exact (moves_funcBody h n false line).mono (fun _ => Inside.somewhere) fun _ => .inl
  · exact st.suffixed.mono (fun _ hts => hts.1) fun _ h => h

/-- Where a reader of what is applied to an expression has nothing to do. -/
theorem moves_suffixes_key (n : Nat) (e : Expr) : Moves AfterKey AfterKey (suffixes n e) := by
  cases n with
  | zero => rw [suffixes]; exact .failNear
  | succ n =>
    rw [suffixes]
    refine .peek fun t => ?_
    rintro s r s' ⟨hs, hhead⟩
    obtain rfl : .sym .assign = t := hs.symm.trans hhead
    exact Moves.pure e s r s' hs

theorem moves_suffixes_name (h : Border A) (n : Nat) (e : Expr) :
    Moves (AfterName A) AfterKey (suffixes n e) := by
  cases n with
  | zero => rw [suffixes]; exact .failNear
  | succ n =>
    rw [suffixes]
    refine .peek fun t => ?_
    rintro s r s' ⟨hs, hhead⟩
    obtain rfl : .sym .lbracket = t := (AfterName.next h hs).head.symm.trans hhead
    refine Moves.silent (P := AfterName A) silent_lastLine (fun _ => ?_) s r s' hs
    exact (moves_bracketKey_name h n).bind fun key => moves_suffixes_key n _

theorem moves_suffixed (h : Seam T₀ A) (st : Stops T₀ A n) : Moves (Inside T₀ A) (Edge T₀ A) (suffixed (n + 1)) := by
  rw [suffixed]
  refine (moves_primary h n).bind fun r => .or ?_ ?_
  · exact (st.suffixes r.1).mono (fun _ h => h) fun _ => .inl
  · exact (moves_suffixes_name h.toBorder n r.1).mono (fun _ h => h) fun _ => .inr

/-- No arguments begin with a bracket. -/
theorem moves_callArgs_name (h : Border A) (n : Nat) {Post : List Lexeme → Prop} :
    Moves (AfterName A) Post (callArgs n) := by
  cases n with
  | zero => rw [callArgs]; exact .failNear
  | succ n =>
    rw [callArgs]
    refine .line fun line => .peek fun t => .of_fails fun s hs => ?_
    obtain rfl : .sym .lbracket = t := (AfterName.next h hs.1).head.symm.trans hs.2
    exact ⟨_, rfl⟩

theorem moves_suffixes (h : Seam T₀ A) (st : Stops T₀ A n) (e : Expr) :
    Moves (Inside T₀ A) (Inside T₀ A) (suffixes (n + 1) e) := by
  have hcall : ∀ {t : Token} (build : List Expr × Nat → Expr), Moves (fun ts => Inside T₀ A ts ∧ headToken ts = t)
      (Inside T₀ A) (callArgs n >>= fun r => suffixes n (build r)) := fun build =>
    ((moves_callArgs h n).mono (fun _ hts => hts.1) fun _ h => h).bind fun r => st.suffixes _
  rw [suffixes]
  refine .peek fun t => ?_
  split
  · refine .silent silent_lastLine fun _ => (h.moves_advance_on (.inr rfl)).bind fun _ => ?_
    exact moves_expectName_onward.bind fun name => st.suffixes _
  · exact .silent silent_lastLine fun _ => st.bracketKey.bind fun key => st.suffixes _
  · refine (h.moves_advance rfl).bind fun _ => .silent silent_lastLine fun _ => moves_expectName.bind fun name => ?_
    refine .silent silent_lastLine fun _ => Moves.bind (M := Inside T₀ A) ?_ fun r => st.suffixes _
    exact .or (moves_callArgs h n) (moves_callArgs_name h.toBorder n)
  · exact .silent silent_lastLine fun _ => hcall _
  · exact .silent silent_lastLine fun _ => hcall _
  · exact .silent silent_lastLine fun _ => hcall _
  · exact (Moves.pure e).mono (fun _ hts => hts.1) fun _ h => h

theorem moves_bracketKey (h : Seam T₀ A) (st : Stops T₀ A n) :
    Moves (fun ts => Inside T₀ A ts ∧ headToken ts = .sym .lbracket) (Inside T₀ A) (bracketKey (n + 1)) := by
  rw [bracketKey]
  refine (h.moves_advance rfl).bind fun _ => (st.subExpr 0).bind fun key => .silent silent_lastLine fun _ => ?_
  exact (moves_expect (h.moves_advance_edge rfl (by simp))).thenPure

theorem moves_exprList (h : Seam T₀ A) (st : Stops T₀ A n) : Moves (Inside T₀ A) (Edge T₀ A) (exprList (n + 1)) := by
  rw [exprList]
  refine (st.subExpr 0).bind fun e => .test (h.moves_advance_edge rfl (by simp)) ?_ ?_
  · exact .silent silent_lastLine fun _ => st.exprList.thenPure
  · exact (Moves.pure _).mono (fun _ hts => hts.1) fun _ h => h

end Expressions

theorem Seam.stops (h : Seam T₀ A) : ∀ n, Stops T₀ A n
  | 0 => {
      subExpr := fun _ => by rw [Parser.subExpr]; exact .failNear
      operators := fun _ _ => by rw [Parser.operators]; exact .failNear
      simpleExpr := by rw [Parser.simpleExpr]; exact .failNear
      suffixed := by rw [Parser.suffixed]; exact .failNear
      suffixes := fun _ => by rw [Parser.suffixes]; exact .failNear
      bracketKey := by rw [Parser.bracketKey]; exact .failNear
      exprList := by rw [Parser.exprList]; exact .failNear }
  | n + 1 => {
      subExpr := moves_subExpr h (h.stops n)
      operators := moves_operators h (h.stops n)
      simpleExpr := moves_simpleExpr h (h.stops n)
      suffixed := moves_suffixed h (h.stops n)
      suffixes := moves_suffixes h (h.stops n)
      bracketKey := moves_bracketKey h (h.stops n)
      exprList := moves_exprList h (h.stops n) }

/-! ## Statements -/

/-- Where the readers of statements stop. -/
def Halt (T₀ A ts : List Lexeme) : Prop :=
  Inside T₀ A ts ∨ AfterName A ts ∨ AfterKey ts

theorem Inside.halt {ts : List Lexeme} : Inside T₀ A ts → Halt T₀ A ts := .inl

theorem Named.halt {ts : List Lexeme} : Named T₀ A ts → Halt T₀ A ts := Or.imp_right .inl

theorem Edge.halt {ts : List Lexeme} : Edge T₀ A ts → Halt T₀ A ts := Or.imp_right .inr

section Statements

variable {Post : List Lexeme → Prop}

theorem moves_assignment (h : Seam T₀ A) : ∀ n target name?,
    Moves (Inside T₀ A) (Edge T₀ A) (assignment n target name?)
  | 0, _, _ => by rw [assignment]; exact .failNear
  | n + 1, target, name? => by
    rw [assignment.eq_def]
    dsimp only
    refine .ite (fun _ => .of_fails fun _ _ => ⟨_, rfl⟩) fun _ => .silent (silent_checkAssignable _ _) fun _ => ?_
    refine .test (h.moves_advance_on (.inl rfl)) (.nested ?_) ?_
    · refine (moves_primary_onward h n).bind fun r => ((h.stops n).suffixes r.1).bind fun full => ?_
      exact (moves_assignment h n _ _).thenPure
    · refine (moves_expect ((h.moves_advance rfl).mono (fun ts hts => ⟨hts.1.1, hts.2⟩) fun _ h => h)).bind fun _ => ?_
      exact (h.stops n).exprList.thenPure

theorem moves_exprStmt (h : Seam T₀ A) (n : Nat) : Moves (Inner T₀ A) (Edge T₀ A) (exprStmt n) := by
  cases n with
  | zero => rw [exprStmt]; exact .failNear
  | succ n =>
    rw [exprStmt]
    refine (moves_primary_inner h n).bind fun r => ((h.stops n).suffixes r.1).bind fun full => .look fun t => ?_
    dsimp only
    refine .ite (fun _ => ?_) fun _ => .ite (fun _ => ?_) fun _ => .failNear
    · exact (moves_assignment h n _ _).bind fun r => .silent silent_lastLine fun _ => .pure _
    · exact (Moves.pure _).mono (fun _ h => h) fun _ => .inl

theorem moves_advance_named (h : Border A) {t : Token} (ht : opensLines t = false) (hbracket : t ≠ .sym .lbracket) :
    Moves (fun ts => Named T₀ A ts ∧ headToken ts = t) (Inside T₀ A) advance := by
  rintro s r s' ⟨hin | hafter, hhead⟩ hrun
  · exact h.moves_advance ht s r s' ⟨hin, hhead⟩ hrun
  · exact absurd (hhead.symm.trans (AfterName.next h hafter).head) hbracket

theorem moves_angleBinding (h : Seam T₀ A) : Moves (Named T₀ A) (Named T₀ A) angleBinding := by
  refine .test (moves_advance_named h.toBorder rfl (by simp)) ?_ ((Moves.pure _).mono (fun _ hts => hts.1) fun _ h => h)
  refine moves_expectName.bind fun name => (moves_expect (moves_advance_named h.toBorder rfl (by simp))).bind fun _ => ?_
  refine Moves.mono (Q := Inside T₀ A) ?_ (fun _ h => h) fun _ => .inl
  refine .ite (fun _ => .pure _) fun _ => .ite (fun _ => .pure _) fun _ => .of_fails fun _ _ => ⟨_, rfl⟩

theorem moves_attributedNames (h : Seam T₀ A) : ∀ n closing,
    Moves (Inside T₀ A) (Named T₀ A) (attributedNames n closing)
  | 0, _ => .failNear
  | n + 1, closing => by
    rw [attributedNames]
    refine moves_expectName.bind fun name => (moves_angleBinding h).bind fun b => ?_
    dsimp only
    refine .ite (fun _ => .of_fails fun _ _ => ⟨_, rfl⟩) fun _ => .test (moves_advance_named h.toBorder rfl (by simp)) ?_ ?_
    · exact (moves_attributedNames h n _).thenPure
    · exact ((Moves.pure _).mono (fun _ hts => hts.1) fun _ h => h).thenPure

theorem moves_localStmt (h : Seam T₀ A) (n : Nat) : Moves (Inside T₀ A) (Halt T₀ A) (localStmt n) := by
  cases n with
  | zero => rw [localStmt]; exact .failNear
  | succ n =>
    rw [localStmt_succ]
    refine (moves_attributedNames h n false).bind fun names => ?_
    have hrest : ∀ values, Moves (Halt T₀ A) (Halt T₀ A) (declareLocals names values) := fun values =>
      (silent_declareLocals names values).moves
    refine .test (moves_advance_named h.toBorder rfl (by simp)) ?_ ?_
    · exact ((h.stops n).exprList.mono (fun _ h => h) fun _ => Edge.halt).bind hrest
    · exact ((Moves.pure []).mono (fun _ hts => hts.1.halt) fun _ h => h).bind hrest

theorem moves_localFunction (h : Seam T₀ A) (n : Nat) :
    Moves (Somewhere T₀ A) (Inside T₀ A) (localFunction n) := by
  cases n with
  | zero => rw [localFunction]; exact .failNear
  | succ n =>
    rw [localFunction]
    refine (reads_expectName (n := n) (S := Never)).moves.bind fun name => .silent (silent_checkLocals _) fun _ => ?_
    refine .silent (silent_declare _) fun _ => .line fun line => ?_
    exact (moves_funcBody h n false line).thenPure

theorem moves_functionStmt (h : Seam T₀ A) (n line : Nat) :
    Moves (Somewhere T₀ A) (Inside T₀ A) (functionStmt n line) := by
  cases n with
  | zero => rw [functionStmt]; exact .failNear
  | succ n =>
    rw [functionStmt]
    refine (reads_expectName (n := n) (S := Never)).moves.bind fun name => .silent (silent_nameExpr name) fun e => ?_
    refine ((grammar n).functionName e).moves.bind fun r => (moves_funcBody h n r.2 line).bind fun f => ?_
    exact .silent (silent_checkAssignable _ _) fun _ => .pure _

theorem moves_ifStmt (h : Seam T₀ A) : ∀ n line, Moves (Somewhere T₀ A) (Inside T₀ A) (ifStmt n line)
  | 0, _ => by rw [ifStmt]; exact .failNear
  | n + 1, line => by
    rw [ifStmt]
    refine ((grammar n).subExpr 0).moves.bind fun cond => (moves_expect_somewhere _).bind fun _ => ?_
    refine .silent silent_lastLine fun _ => (grammar n).block.moves.bind fun body => .look fun t => ?_
    split
    · exact moves_advance_somewhere.bind fun _ => (moves_ifStmt h n line).thenPure
    · exact moves_advance_somewhere.bind fun _ => (grammar n).block.moves.bind fun body => .close h rfl (.pure _)
    · exact .close h rfl (.pure _)

theorem moves_forBody (h : Seam T₀ A) (n : Nat) (names : List Bytes) (line : Nat) :
    Moves (Somewhere T₀ A) (Inside T₀ A) (forBody n names line) := by
  cases n with
  | zero => rw [forBody]; exact .failNear
  | succ n =>
    rw [forBody]
    refine (moves_expect_somewhere _).bind fun _ => .silent silent_lastLine fun doLine => ?_
    have hbody : Moves (Somewhere T₀ A) (Somewhere T₀ A) (inBlock false (do
        checkLocals names.length
        declare (plainLocals names)
        statements n)) :=
      .inBlock (.silent (silent_checkLocals _) fun _ => .silent (silent_declare _) fun _ => (grammar n).statements.moves)
    exact hbody.bind fun body => .close h rfl (.pure _)

theorem moves_forStmt (h : Seam T₀ A) (n line : Nat) : Moves (Somewhere T₀ A) (Inside T₀ A) (forStmt n line) := by
  cases n with
  | zero => rw [forStmt]; exact .failNear
  | succ n =>
    have hbound : Moves (Somewhere T₀ A) (Somewhere T₀ A) (do
        let e ← subExpr n 0
        return e.settle (← lastLine)) :=
      ((grammar n).subExpr 0).moves.bind fun e => .silent silent_lastLine fun _ => .pure _
    have hbody : ∀ (names : List Bytes) (build : List Stmt × Nat → List Stmt), Moves (Somewhere T₀ A) (Inside T₀ A)
        (forBody n names line >>= fun r => pure (build r)) := fun names build =>
      (moves_forBody h n names line).thenPure
    rw [forStmt]
    refine .inBlock (moves_advance_somewhere.bind fun _ => ?_)
    refine (reads_expectName (n := n) (S := Never)).moves.bind fun name => .look fun t => ?_
    split
    case h_2 | h_3 =>
      refine (reads_moreNames n).moves.bind fun more => (moves_expect_somewhere _).bind fun _ => .line fun _ => ?_
      refine (grammar n).exprList.moves.bind fun values => .silent silent_lastLine fun _ => ?_
      exact .silent (silent_modifyBlock _) fun _ => hbody _ _
    · refine moves_advance_somewhere.bind fun _ => hbound.bind fun start => (moves_expect_somewhere _).bind fun _ => ?_
      refine hbound.bind fun stop => .test (moves_advance_somewhere.mono (fun _ hts => hts.1) fun _ h => h) ?_ ?_
      · exact hbound.bind fun step => hbody _ _
      · exact ((Moves.pure _).mono (fun _ hts => hts.1) fun _ h => h).bind fun step => hbody _ _
    · exact .failNear

/-- The values that are returned. -/
theorem moves_returnStmt (h : Seam T₀ A) (n : Nat) : Moves (Inner T₀ A) (Edge T₀ A) (returnStmt n) := by
  cases n with
  | zero => rw [returnStmt]; exact .failNear
  | succ n =>
    rw [returnStmt]
    refine moves_advance_inner.bind fun _ => .look fun t => ?_
    dsimp only
    refine .iteBind ((Moves.pure []).mono (fun _ h => h) fun _ => .inl) (h.stops n).exprList fun values => ?_
    refine .silent silent_lastLine fun line => .test (h.moves_advance_edge rfl (by simp)) ?_ ?_
    · refine Moves.mono (Q := Inside T₀ A) ?_ (fun _ h => h) fun _ => .inl
      exact .silent silent_func fun _ => .pure _
    · exact .silent silent_func fun _ => (Moves.pure _).mono (fun _ hts => hts.1) fun _ h => h

/-- A semicolon or a label begins here. -/
def Bare (T₀ A ts : List Lexeme) : Prop :=
  Inside T₀ A ts ∧ (headToken ts = .sym .semi ∨ headToken ts = .sym .dcolon)

theorem Bare.inner (h : Border A) {ts : List Lexeme} : Bare T₀ A ts → Inner T₀ A ts := by
  rintro ⟨hin, hhead⟩
  refine inner_of_head hin ?_
  rcases hhead with hhead | hhead <;> rw [hhead] <;> exact h.head_ne rfl

/-- Where the readers of labels and of empty statements stop. -/
structure LabelStops (T₀ A : List Lexeme) (n : Nat) : Prop where
  emptyStatements : Moves (Inside T₀ A) (Inside T₀ A) (emptyStatements n)
  labelStmt : ∀ name line, Moves (Named T₀ A) (Inside T₀ A) (labelStmt n name line)
  statement : Moves (Bare T₀ A) (Inside T₀ A) (statement n)

theorem moves_emptyStatements {n : Nat} (st : LabelStops T₀ A n) :
    Moves (Inside T₀ A) (Inside T₀ A) (emptyStatements (n + 1)) := by
  have hmore : ∀ {t : Token}, t = .sym .semi ∨ t = .sym .dcolon → Moves (fun ts => Inside T₀ A ts ∧ headToken ts = t)
      (Inside T₀ A) (nested (statement n) >>= fun ss => emptyStatements n >>= fun more => pure (ss ++ more)) :=
    fun {t} ht => by
      have hstatement : Moves (fun ts => Inside T₀ A ts ∧ headToken ts = t) (Inside T₀ A) (nested (statement n)) :=
        st.statement.nested.mono (fun ts hts => ⟨hts.1, by rw [hts.2]; exact ht⟩) fun _ h => h
      exact hstatement.bind fun _ => st.emptyStatements.thenPure
  rw [emptyStatements]
  refine .peek fun t => ?_
  split
  · exact hmore (.inl rfl)
  · exact hmore (.inr rfl)
  · exact (Moves.pure _).mono (fun _ hts => hts.1) fun _ h => h

theorem moves_labelStmt (h : Border A) {n : Nat} (st : LabelStops T₀ A n) (name : Bytes) (line : Nat) :
    Moves (Named T₀ A) (Inside T₀ A) (labelStmt (n + 1) name line) := by
  rw [labelStmt]
  refine (moves_expect (moves_advance_named h rfl (by simp))).bind fun _ => st.emptyStatements.bind fun skipped => ?_
  refine .silent (silent_findLabel name) fun found => ?_
  split
  · exact .of_fails fun _ _ => ⟨_, rfl⟩
  · refine .silent silent_func fun fs => .look fun t => .silent silent_scopeDepth fun _ => ?_
    exact .silent (silent_modifyBlock _) fun _ => .silent (silent_solve _) fun _ => .pure _

theorem moves_bareStatement (h : Border A) {n : Nat} (st : LabelStops T₀ A n) :
    Moves (Bare T₀ A) (Inside T₀ A) (statement (n + 1)) := by
  rw [statement]
  refine .line fun line => .peek fun t => ?_
  rintro s r s' ⟨hs, hhead⟩
  have hinner := Bare.inner h hs
  rcases hs.2 with ht | ht
  · obtain rfl := ht.symm.trans hhead
    exact moves_advance_inner.thenPure s r s' hinner
  · obtain rfl := ht.symm.trans hhead
    exact (moves_advance_inner.bind fun _ => moves_expectName.bind fun name => st.labelStmt name line) s r s' hinner

theorem Border.labelStops (h : Border A) : ∀ n, LabelStops T₀ A n
  | 0 => {
      emptyStatements := by rw [Parser.emptyStatements]; exact .failNear
      labelStmt := fun _ _ => by rw [Parser.labelStmt]; exact .failNear
      statement := by rw [Parser.statement]; exact .failNear }
  | n + 1 => {
      emptyStatements := moves_emptyStatements (h.labelStops n)
      labelStmt := moves_labelStmt h (h.labelStops n)
      statement := moves_bareStatement h (h.labelStops n) }

/-- A statement that begins in the program ends in it or where no statement can begin. -/
theorem Seam.moves_statement (h : Seam T₀ A) (n : Nat) : Moves (Inner T₀ A) (Halt T₀ A) (statement n) := by
  cases n with
  | zero => rw [statement]; exact .failNear
  | succ n =>
    have hinside : Moves (Inner T₀ A) (Somewhere T₀ A) advance :=
      moves_advance_inner.mono (fun _ h => h) fun _ => Inside.somewhere
    rw [statement]
    refine .line fun line => .look fun t => ?_
    split
    · exact (moves_advance_inner.mono (fun _ h => h) fun _ => Inside.halt).thenPure
    · refine Moves.mono (Q := Inside T₀ A) ?_ (fun _ h => h) fun _ => Inside.halt
      exact hinside.bind fun _ => (moves_ifStmt h n line).thenPure
    · refine Moves.mono (Q := Inside T₀ A) ?_ (fun _ h => h) fun _ => Inside.halt
      refine hinside.bind fun _ => ((grammar n).subExpr 0).moves.bind fun cond => .silent silent_lastLine fun _ => ?_
      refine .inBlock ((moves_expect_somewhere _).bind fun _ => (grammar n).block.moves.bind fun body => ?_)
      exact .close h rfl (.pure _)
    · refine Moves.mono (Q := Inside T₀ A) ?_ (fun _ h => h) fun _ => Inside.halt
      exact hinside.bind fun _ => (grammar n).block.moves.bind fun body => .close h rfl (.pure _)
    · exact (moves_forStmt h n line).mono (fun _ hts => hts.inside.somewhere) fun _ => Inside.halt
    · refine Moves.mono (Q := Edge T₀ A) ?_ (fun _ h => h) fun _ => Edge.halt
      refine hinside.bind fun _ => .inBlock (.inBlock ((grammar n).statements.moves.bind fun body => ?_))
      refine .close h rfl (((h.stops n).subExpr 0).bind fun cond => ?_)
      exact .silent silent_lastLine fun _ => .pure _
    · refine Moves.mono (Q := Inside T₀ A) ?_ (fun _ h => h) fun _ => Inside.halt
      exact hinside.bind fun _ => (moves_functionStmt h n line).thenPure
    · refine moves_advance_inner.bind fun _ => .test (M := Inside T₀ A) (h.moves_advance rfl) ?_ ?_
      · exact (moves_localFunction h n).mono (fun _ => Inside.somewhere) fun _ => Inside.halt
      · exact (moves_localStmt h n).mono (fun _ hts => hts.1) fun _ h => h
    · refine Moves.mono (Q := Inside T₀ A) ?_ (fun _ h => h) fun _ => Inside.halt
      exact moves_advance_inner.bind fun _ => moves_expectName.bind fun name => (h.labelStops n).labelStmt name line
    · refine (moves_advance_inner.mono (fun _ h => h) fun _ => Inside.halt).bind fun _ => ?_
      exact .silent (silent_addPending _ _) fun _ => .pure _
    · refine moves_advance_inner.bind fun _ => (moves_expectName.mono (fun _ h => h) fun _ => Named.halt).bind fun name => ?_
      refine .silent (silent_findLabel name) fun found => ?_
      split
      · exact .silent (.pure _) fun _ => .pure _
      · exact .silent (silent_addPending _ _) fun _ => .pure _
    · exact (moves_exprStmt h n).mono (fun _ h => h) fun _ => Edge.halt

end Statements

end Scratchpad.Lua.Parser
