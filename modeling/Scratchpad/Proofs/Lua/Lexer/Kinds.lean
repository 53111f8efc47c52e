import Mathlib.Data.List.TakeWhile
import Scratchpad.Proofs.Lua.Lexer.Appended

/-!
# Tokens without their lines

`kinds` are the tokens of a text, and whether a lexical error ends them, whatever the lines on which they stand. They do
not depend on the line on which the text begins (`kinds_lexed`), so neither line ends nor comments on lines of their own
count (`kinds_newline`, `kinds_comment`). Main statement: behind a text that leaves no string and no long comment open,
texts with the same tokens can be exchanged (`kinds_append_congr`).
-/

namespace Scratchpad.Lua.Lexer

/-! ## Readers on another line -/

section Readers

variable (line line' : Nat)

theorem longContent_line (level : Nat) (acc bs : Bytes) :
    (longContent level line acc bs).2 = (longContent level line' acc bs).2 := by
  fun_induction longContent level line acc bs generalizing line' with
  | case1 => rw [longContent]
  | case2 line acc b r rest hclose => rw [longContent, hclose]
  | case3 line acc b r hclose hb ih =>
    conv_rhs => rw [longContent, hclose, if_pos hb]
    exact ih (line' + 1)
  | case4 line acc b r hclose hb ih =>
    conv_rhs => rw [longContent, hclose, if_neg hb]
    exact ih line'

theorem longText_line (level : Nat) (bs : Bytes) : (longText level line bs).2 = (longText level line' bs).2 := by
  cases bs with
  | nil => rfl
  | cons b r =>
    simp only [longText]
    split
    · exact longContent_line _ _ level [] _
    · exact longContent_line _ _ level [] _

theorem skipSpace_line (bs : Bytes) : (skipSpace line bs).2 = (skipSpace line' bs).2 := by
  fun_induction skipSpace line bs generalizing line' with
  | case1 => rw [skipSpace]
  | case2 line b r hb ih =>
    rw [skipSpace, if_pos hb]
    exact ih (line' + 1)
  | case3 line b r hb hspace ih =>
    rw [skipSpace, if_neg hb, if_pos hspace]
    exact ih line'
  | case4 line b r hb hspace => rw [skipSpace, if_neg hb, if_neg hspace]

/-- What an escape stands for and what is left behind it. -/
def Piece.bare : Piece → Option (Bytes × Bytes)
  | .ok v _ rest => some (v, rest)
  | .error _ => none

/-- A string and what is left behind it. -/
def Quoted.bare : Quoted → Option (Bytes × Bytes)
  | .ok v _ rest => some (v, rest)
  | .error _ => none

/-- The token that is read, if it is one, and what is left behind it. -/
def Next.bare : Next → Option (Option Token × Bytes)
  | .token l rest => some (some l.token, rest)
  | .skip _ rest => some (none, rest)
  | .error _ => none

theorem Next.of_bare_token {n : Next} {t : Token} {rest : Bytes} (h : n.bare = some (some t, rest)) :
    ∃ l, n = .token l rest ∧ l.token = t := by
  cases n with
  | token l rest' =>
    obtain ⟨ht, rfl⟩ := Prod.mk.inj (Option.some.inj h)
    exact ⟨l, rfl, Option.some.inj ht⟩
  | skip last rest' => cases h
  | error e => cases h

theorem Next.of_bare_skip {n : Next} {rest : Bytes} (h : n.bare = some (none, rest)) :
    ∃ last, n = .skip last rest := by
  cases n with
  | token l rest' => cases h
  | skip last rest' =>
    obtain ⟨-, rfl⟩ := Prod.mk.inj (Option.some.inj h)
    exact ⟨last, rfl⟩
  | error e => cases h

theorem Next.of_bare_none {n : Next} (h : n.bare = none) : ∃ e, n = .error e := by
  cases n with
  | token l rest => cases h
  | skip last rest => cases h
  | error e => exact ⟨e, rfl⟩

theorem hexEscape_line (before bs : Bytes) : (hexEscape line before bs).bare = (hexEscape line' before bs).bare := by
  rcases bs with _ | ⟨a, r⟩
  · rfl
  · simp only [hexEscape]
    rcases Byte.hexValue? a with _ | d
    · rfl
    · rcases r with _ | ⟨b, r⟩
      · rfl
      · dsimp only
        cases Byte.hexValue? b <;> rfl

theorem unicodeDigits_line (before : Bytes) : ∀ bs read n,
    (unicodeDigits line before read n bs).bare = (unicodeDigits line' before read n bs).bare
  | [], read, n => rfl
  | b :: r, read, n => by
    unfold unicodeDigits
    split
    · split
      · exact unicodeDigits_line before r _ _
      · rfl
    · split <;> rfl

theorem unicodeEscape_line (before bs : Bytes) :
    (unicodeEscape line before bs).bare = (unicodeEscape line' before bs).bare := by
  rcases bs with _ | ⟨o, r⟩
  · rfl
  · simp only [unicodeEscape]
    split
    · rcases r with _ | ⟨a, r⟩
      · rfl
      · dsimp only
        rcases Byte.hexValue? a with _ | d
        · rfl
        · exact unicodeDigits_line line line' before r _ _
    · rfl

theorem decimalEscape_line (before bs : Bytes) :
    (decimalEscape line before bs).bare = (decimalEscape line' before bs).bare := by
  simp only [decimalEscape]
  split <;> rfl

theorem readEscape_line (before bs : Bytes) :
    (readEscape line before bs).bare = (readEscape line' before bs).bare := by
  rcases bs with _ | ⟨b, r⟩
  · rfl
  · simp only [readEscape]
    rcases letterEscape? b with _ | w
    · dsimp only
      split_ifs
      · exact hexEscape_line line line' before r
      · exact unicodeEscape_line line line' before r
      · rfl
      · exact congrArg (fun rest => some ([], rest)) (skipSpace_line line line' r)
      · exact decimalEscape_line line line' before (b :: r)
      · rfl
    · rfl

theorem readQuoted_line (q : UInt8) : ∀ fuel line line' acc bs,
    (readQuoted q fuel line acc bs).bare = (readQuoted q fuel line' acc bs).bare
  | 0, _, _, _, _ => rfl
  | _ + 1, _, _, _, [] => rfl
  | fuel + 1, line, line', acc, b :: r => by
    unfold readQuoted
    split_ifs
    · rfl
    · rfl
    · have hescape := readEscape_line line line' (q :: acc.reverse) r
      rcases hpiece : readEscape line (q :: acc.reverse) r with ⟨v, last, rest⟩ | e
      · rcases hpiece' : readEscape line' (q :: acc.reverse) r with ⟨v', last', rest'⟩ | e'
        · rw [hpiece, hpiece'] at hescape
          obtain ⟨rfl, rfl⟩ := Prod.mk.inj (Option.some.inj hescape)
          exact readQuoted_line q fuel last last' _ _
        · rw [hpiece, hpiece'] at hescape
          cases hescape
      · rcases hpiece' : readEscape line' (q :: acc.reverse) r with ⟨v', last', rest'⟩ | e'
        · rw [hpiece, hpiece'] at hescape
          cases hescape
        · rfl
    · exact readQuoted_line q fuel line line' _ _

theorem readComment_line (bs : Bytes) : (readComment line bs).bare = (readComment line' bs).bare := by
  by_cases hb : bs.head? = some 91
  · obtain ⟨r, rfl⟩ := List.head?_eq_some_iff.1 hb
    rw [readComment_bracket, readComment_bracket]
    rcases longBracket? 91 r with _ | ⟨level, r'⟩
    · rfl
    · have htext := longText_line line line' level r'
      dsimp only
      rcases hthis : longText level line r' with ⟨last, content⟩
      rcases hthat : longText level line' r' with ⟨last', content'⟩
      rw [hthis, hthat] at htext
      obtain rfl : content = content' := htext
      rcases content with _ | ⟨v, rest⟩ <;> rfl
  · rw [readComment_other hb, readComment_other hb]
    rfl

theorem readBracket_line (r : Bytes) : (readBracket line r).bare = (readBracket line' r).bare := by
  unfold readBracket
  rcases longBracket? 91 r with _ | ⟨level, r'⟩
  · dsimp only
    split <;> rfl
  · have htext := longText_line line line' level r'
    dsimp only
    rcases hthis : longText level line r' with ⟨last, content⟩
    rcases hthat : longText level line' r' with ⟨last', content'⟩
    rw [hthis, hthat] at htext
    obtain rfl : content = content' := htext
    rcases content with _ | ⟨v, rest⟩ <;> rfl

/-- A look does not depend on the line. -/
theorem next_line (bs : Bytes) : (next line bs).bare = (next line' bs).bare := by
  rcases bs with _ | ⟨b, r⟩
  · rfl
  · unfold next
    dsimp only
    split_ifs
    · rfl
    · rfl
    · rfl
    · split <;> rfl
    · have hread := readQuoted_line b (r.length + 1) line line' [] r
      rcases hthis : readQuoted b (r.length + 1) line [] r with ⟨v, last, rest⟩ | e
      · rcases hthat : readQuoted b (r.length + 1) line' [] r with ⟨v', last', rest'⟩ | e'
        · rw [hthis, hthat] at hread
          obtain ⟨rfl, rfl⟩ := Prod.mk.inj (Option.some.inj hread)
          rfl
        · rw [hthis, hthat] at hread
          cases hread
      · rcases hthat : readQuoted b (r.length + 1) line' [] r with ⟨v', last', rest'⟩ | e'
        · rw [hthis, hthat] at hread
          cases hread
        · rfl
    · exact readComment_line line line' _
    · exact readBracket_line line line' r
    · split <;> rfl

end Readers

/-! ## The kinds of a text -/

/-- Tokens without the lines on which they stand, and whether an error ends them. -/
def kindsOf (r : List Lexeme × Option SyntaxError) : List Token × Bool :=
  (r.1.map Lexeme.token, r.2.isSome)

/-- The tokens of a text, and whether a lexical error ends them. -/
def kinds (bs : Bytes) : List Token × Bool :=
  kindsOf (lex bs)

section Kinds

variable {line last : Nat} {bs rest x x' : Bytes} {b : UInt8} {l : Lexeme} {e : SyntaxError}

/-- The tokens do not depend on the line on which a text begins. -/
theorem kinds_lexed (line : Nat) (bs : Bytes) : kindsOf (lexed line bs) = kinds bs := by
  suffices h : ∀ line', kindsOf (lexed line bs) = kindsOf (lexed line' bs) from h 1
  induction line, bs using lexed_induction with
  | nil line => exact fun line' => rfl
  | token line bs l rest hnext hl ih =>
    intro line'
    obtain ⟨l', hthere, htoken⟩ := Next.of_bare_token ((next_line line' line bs).trans (congrArg Next.bare hnext))
    obtain ⟨htokens, herror⟩ := Prod.mk.inj (ih l'.line)
    rw [lexed_token hnext hl, lexed_token hthere (htoken.symm ▸ hl), kindsOf, kindsOf, List.map_cons, List.map_cons,
      htoken, htokens, herror]
  | skip line bs last rest hnext ih =>
    intro line'
    obtain ⟨last', hthere⟩ := Next.of_bare_skip ((next_line line' line bs).trans (congrArg Next.bare hnext))
    rw [lexed_skip hnext, lexed_skip hthere]
    exact ih last'
  | error line bs e hnext =>
    intro line'
    obtain ⟨e', hthere⟩ := Next.of_bare_none ((next_line line' line bs).trans (congrArg Next.bare hnext))
    rw [lexed_error hnext, lexed_error hthere]
    rfl

theorem kinds_skip (h : next line bs = .skip last rest) : kinds bs = kinds rest := by
  rw [← kinds_lexed line, lexed_skip h, kinds_lexed]

theorem kinds_token (h : next line bs = .token l rest) (hl : l.token ≠ .eof) :
    kinds bs = (l.token :: (kinds rest).1, (kinds rest).2) := by
  rw [← kinds_lexed line, lexed_token h hl, ← kinds_lexed l.line rest]
  rfl

theorem kinds_error (h : next line bs = .error e) : kinds bs = ([], true) := by
  rw [← kinds_lexed line, lexed_error h]
  rfl

/-- A line end is no token, even if it is taken for a part of another one. -/
theorem kinds_newline (hb : Byte.isNewline b = true) : kinds (b :: x) = kinds x := by
  induction x generalizing b with
  | nil =>
    have hnext : next 1 [b] = .skip 2 [] := by
      rw [next, if_pos hb, afterNewline_singleton]
    exact kinds_skip hnext
  | cons c x ih =>
    have hnext : next 1 (b :: c :: x) = .skip 2 (afterNewline (b :: c :: x)) := by
      rw [next, if_pos hb]
    rw [kinds_skip hnext, afterNewline_cons]
    split
    · rename_i hpair
      have hc : Byte.isNewline c = true := by
        rcases hpair with ⟨-, hc⟩ | ⟨-, hc⟩
        · rw [Option.some.inj hc]
          rfl
        · rw [Option.some.inj hc]
          rfl
      exact (ih hc).symm
    · rfl

/-! ## Comments -/

/-- A line that is one comment, which ends with it. -/
def IsComment (bs : Bytes) : Prop :=
  ∃ w, bs = 45 :: 45 :: w ∧ ∀ line x, next line (bs ++ 10 :: x) = .skip line (10 :: x)

/-- A line that begins like a short comment is one, exactly if it does not end before its end. -/
theorem isComment_iff (w : Bytes) : IsComment (45 :: 45 :: 32 :: w) ↔ ∀ b ∈ w, Byte.isNewline b = false := by
  have hnext : ∀ line x, next line (45 :: 45 :: 32 :: w ++ 10 :: x) =
      .skip line ((w.dropWhile fun b => !Byte.isNewline b) ++ 10 :: x) := by
    intro line x
    rw [← dropWhile_append_stop rfl]
    rfl
  have hdrop : (w.dropWhile fun b => !Byte.isNewline b) = [] ↔ ∀ b ∈ w, Byte.isNewline b = false := by
    simp [List.dropWhile_eq_nil_iff]
  rw [← hdrop]
  constructor
  · rintro ⟨w', -, hskip⟩
    have hrest := hskip 1 []
    rw [hnext 1 []] at hrest
    exact List.append_left_eq_self.1 (Next.skip.inj hrest).2
  · intro hnil
    exact ⟨32 :: w, rfl, fun line x => by rw [hnext, hnil, List.nil_append]⟩

theorem kinds_comment (h : IsComment bs) (x : Bytes) : kinds (bs ++ 10 :: x) = kinds x := by
  obtain ⟨w, -, hnext⟩ := h
  rw [kinds_skip (hnext 1 x), kinds_newline rfl]

/-! ## Behind a text that leaves nothing open -/

/-- The text ends inside a string or a long comment. -/
def LeavesOpen (bs : Bytes) : Prop :=
  ∃ e, (lex bs).2 = some e ∧ IsAtEnd e

/-- A quoted string goes on behind the line end, or no line behind it finishes it. -/
def Unfinished (q : UInt8) (line : Nat) (acc bs : Bytes) : Prop :=
  (∀ n, ∃ e, IsAtEnd e ∧ readQuoted q n line acc (bs ++ [10]) = .error e) ∨
    ∀ x n, ∃ e, readQuoted q n line acc (bs ++ 10 :: x) = .error e

/-- No fuel has the same error as no text. -/
theorem unfinished_of_succ {q : UInt8} {acc : Bytes}
    (h : (∀ n, ∃ e, IsAtEnd e ∧ readQuoted q (n + 1) line acc (bs ++ [10]) = .error e) ∨
      ∀ x n, ∃ e, readQuoted q (n + 1) line acc (bs ++ 10 :: x) = .error e) : Unfinished q line acc bs := by
  refine h.imp (fun h n => ?_) fun h x n => ?_
  · cases n with
    | zero => exact ⟨_, ⟨_, _, rfl⟩, rfl⟩
    | succ n => exact h n
  · cases n with
    | zero => exact ⟨_, rfl⟩
    | succ n => exact h x n

theorem unfinished_of_error {q : UInt8} (hq : q ≠ 10) : ∀ {fuel line : Nat} {acc bs : Bytes},
    bs.length < fuel → readQuoted q fuel line acc bs = .error e → Unfinished q line acc bs
  | 0, _, _, _, hfuel, _ => absurd hfuel (Nat.not_lt_zero _)
  | fuel + 1, line, acc, [], _, _ => by
    refine unfinished_of_succ (.inr fun x n => ?_)
    rw [List.nil_append, readQuoted, if_neg (by simpa using hq.symm), if_pos (show Byte.isNewline 10 = true from rfl)]
    exact ⟨_, rfl⟩
  | fuel + 1, line, acc, b :: r, hfuel, h => by
    rw [List.length_cons] at hfuel
    rw [readQuoted] at h
    split_ifs at h with hquote hnewline hslash
    · refine unfinished_of_succ (.inr fun x n => ?_)
      rw [List.cons_append, readQuoted, if_neg hquote, if_pos hnewline]
      exact ⟨_, rfl⟩
    · rcases readEscape_append line (q :: acc.reverse) r with hext | ⟨-, hstripped⟩
      · rcases hpiece : readEscape line (q :: acc.reverse) r with ⟨v, last, rest⟩ | e'
        · rw [hpiece] at h hext
          have hle := (readEscape_suffix hpiece).length_le
          refine unfinished_of_succ ((unfinished_of_error hq (by omega) h).imp (fun h n => ?_) fun h x n => ?_)
          · rw [List.cons_append, readQuoted, if_neg hquote, if_neg hnewline, if_pos hslash, hext []]
            exact h n
          · rw [List.cons_append, readQuoted, if_neg hquote, if_neg hnewline, if_pos hslash, hext x]
            exact h x n
        · rw [hpiece] at hext
          refine unfinished_of_succ (.inr fun x n => ?_)
          obtain ⟨e'', he⟩ := hext x
          rw [List.cons_append, readQuoted, if_neg hquote, if_neg hnewline, if_pos hslash, he]
          exact ⟨e'', rfl⟩
      · refine unfinished_of_succ (.inl fun n => ?_)
        obtain ⟨v, last, y, hy, he⟩ := hstripped []
        obtain rfl := List.eq_nil_of_suffix_nil hy.1
        rw [List.cons_append, readQuoted, if_neg hquote, if_neg hnewline, if_pos hslash, he]
        exact ⟨_, ⟨_, _, rfl⟩, readQuoted_nil q n last _⟩
    · refine unfinished_of_succ ((unfinished_of_error hq (by omega) h).imp (fun h n => ?_) fun h x n => ?_)
      · rw [List.cons_append, readQuoted, if_neg hquote, if_neg hnewline, if_neg hslash]
        exact h n
      · rw [List.cons_append, readQuoted, if_neg hquote, if_neg hnewline, if_neg hslash]
        exact h x n

/-- A look that ends with an error goes on behind a line end, or ends with an error whatever follows. -/
theorem next_append_error_cases {r : Bytes} (h : next line (b :: r) = .error e) :
    (∃ e', IsAtEnd e' ∧ next line (b :: r ++ [10]) = .error e') ∨
      ∀ x, ∃ e', next line (b :: r ++ 10 :: x) = .error e' := by
  cases next_append_error h with
  | ill hill => exact .inr hill
  | quoted hb e' hread =>
    have hne : b ≠ 10 := by
      rintro rfl
      cases hb
    refine (unfinished_of_error hne (Nat.lt_succ_self _) hread).imp (fun h => ?_) fun h x => ?_
    · obtain ⟨e'', hend, he⟩ := h _
      rw [List.cons_append, next_quoted hb, he]
      exact ⟨e'', hend, rfl⟩
    · obtain ⟨e'', he⟩ := h x _
      rw [List.cons_append, next_quoted hb, he]
      exact ⟨e'', rfl⟩
  | long level bs hopen hmore => exact .inl (hmore [] (longText_append_open hopen closesNothing_nil))

theorem kinds_append_token (h : next line bs = .token l rest) (hl : l.token ≠ .eof) (x : Bytes) :
    kinds (bs ++ 10 :: x) = (l.token :: (kinds (rest ++ 10 :: x)).1, (kinds (rest ++ 10 :: x)).2) :=
  kinds_token (next_append_token h hl x) hl

theorem kinds_append_skip (h : next line bs = .skip last rest) (x : Bytes) :
    kinds (bs ++ 10 :: x) = kinds (rest ++ 10 :: x) := by
  rcases next_append_skip h x with hext | ⟨rfl, hext⟩
  · exact kinds_skip hext
  · rw [kinds_skip hext, List.nil_append, kinds_newline rfl]

/-- A line end behind a text is no token. -/
theorem kinds_append_newline (bs : Bytes) : kinds (bs ++ [10]) = kinds bs := by
  suffices h : ∀ line bs, kinds (bs ++ [10]) = kinds bs from h 1 bs
  intro line bs
  induction line, bs using lexed_induction with
  | nil line => exact kinds_newline rfl
  | token line bs l rest hnext hl ih => rw [kinds_append_token hnext hl, kinds_token hnext hl, ih]
  | skip line bs last rest hnext ih => rw [kinds_append_skip hnext, kinds_skip hnext, ih]
  | error line bs e hnext =>
    rcases bs with _ | ⟨b, r⟩
    · cases hnext
    · rcases next_append_error_cases hnext with ⟨e', -, he⟩ | he
      · rw [kinds_error hnext, kinds_error he]
      · obtain ⟨e', he⟩ := he []
        rw [kinds_error hnext, kinds_error he]

/-- Behind a text that leaves nothing open, texts with the same tokens can be exchanged. -/
theorem kinds_append_congr (hbs : ¬ LeavesOpen (bs ++ [10])) (h : kinds x = kinds x') :
    kinds (bs ++ 10 :: x) = kinds (bs ++ 10 :: x') := by
  have hend : ∀ e, (lexed 1 (bs ++ [10])).2 = some e → ¬ IsAtEnd e := fun e he hatEnd => hbs ⟨e, he, hatEnd⟩
  suffices hall : ∀ line bs, (∀ e, (lexed line (bs ++ [10])).2 = some e → ¬ IsAtEnd e) →
      kinds (bs ++ 10 :: x) = kinds (bs ++ 10 :: x') from hall 1 bs hend
  have hnil : kinds (10 :: x) = kinds (10 :: x') := by
    rw [kinds_newline rfl, kinds_newline rfl, h]
  intro line bs
  induction line, bs using lexed_induction with
  | nil line => exact fun _ => hnil
  | token line bs l rest hnext hl ih =>
    intro hend
    rw [kinds_append_token hnext hl, kinds_append_token hnext hl, ih]
    rwa [lexed_token (next_append_token hnext hl []) hl] at hend
  | skip line bs last rest hnext ih =>
    intro hend
    rw [kinds_append_skip hnext, kinds_append_skip hnext]
    rcases next_append_skip hnext [] with hext | ⟨rfl, -⟩
    · rw [lexed_skip hext] at hend
      exact ih hend
    · exact hnil
  | error line bs e hnext =>
    intro hend
    rcases bs with _ | ⟨b, r⟩
    · cases hnext
    · rcases next_append_error_cases hnext with ⟨e', hatEnd, he⟩ | he
      · exact absurd hatEnd (hend e' (by rw [lexed_error he]))
      · obtain ⟨e₁, h₁⟩ := he x
        obtain ⟨e₂, h₂⟩ := he x'
        rw [kinds_error h₁, kinds_error h₂]

end Kinds

end Scratchpad.Lua.Lexer
