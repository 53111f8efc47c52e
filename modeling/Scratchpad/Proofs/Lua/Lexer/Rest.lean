import Mathlib.Data.List.Infix
import Scratchpad.Lua.Lexer

/-!
# What is left behind a token

The readers of the lexer read from the front: what they leave is a rest of what they were given. So the number of looks
that `lex` allows suffices, and the tokens of a text can be described without it (`lexed`, `lex_eq`). Main statement:
the tokens end with `eof` if there is no lexical error, and otherwise `eof` is not among them (`lexed_cases`).
-/

namespace Scratchpad.Lua.Lexer

/-! ## Parts of tokens -/

section Parts

variable {line last level : Nat} {acc v bs rest : Bytes} {b : UInt8}

theorem afterNewline_suffix (b : UInt8) (bs : Bytes) : afterNewline (b :: bs) <:+ bs := by
  unfold afterNewline
  split
  · rename_i h
    obtain ⟨-, rfl⟩ := List.cons.inj h
    exact List.suffix_cons _ _
  · rename_i h
    obtain ⟨-, rfl⟩ := List.cons.inj h
    exact List.suffix_cons _ _
  · rename_i h
    obtain ⟨-, rfl⟩ := List.cons.inj h
    exact List.suffix_refl _
  · rename_i h
    cases h

theorem longBracket?_suffix {n : Nat} (h : longBracket? b bs = some (n, rest)) : rest <:+ bs := by
  simp only [longBracket?] at h
  split at h
  · rename_i c r hdrop
    split at h
    · obtain ⟨-, rfl⟩ := Prod.mk.inj (Option.some.inj h)
      exact (List.suffix_cons c r).trans (hdrop ▸ List.drop_suffix _ bs)
    · cases h
  · cases h

theorem afterClose?_suffix (h : afterClose? level bs = some rest) : rest <:+ bs := by
  unfold afterClose? at h
  split at h
  · split at h
    · rename_i r n r' hlong
      split at h
      · obtain rfl := Option.some.inj h
        exact (longBracket?_suffix hlong).trans (List.suffix_cons _ _)
      · cases h
    · cases h
  · cases h

theorem longContent_suffix {acc bs : Bytes} {line : Nat}
    (h : longContent level line acc bs = (last, some (v, rest))) : rest <:+ bs := by
  fun_induction longContent level line acc bs with
  | case1 => cases h
  | case2 line acc b r rest' hclose =>
    simp only [Prod.mk.injEq, Option.some.injEq] at h
    obtain ⟨-, -, rfl⟩ := h
    exact afterClose?_suffix hclose
  | case3 line acc b r hclose hb ih => exact (ih h).trans ((afterNewline_suffix b r).trans (List.suffix_cons b r))
  | case4 line acc b r hclose hb ih => exact (ih h).trans (List.suffix_cons b r)

theorem longText_suffix (h : longText level line bs = (last, some (v, rest))) : rest <:+ bs := by
  unfold longText at h
  split at h
  · rename_i b r
    split at h
    · exact (longContent_suffix h).trans ((afterNewline_suffix b r).trans (List.suffix_cons b r))
    · exact longContent_suffix h
  · cases h

theorem skipSpace_suffix (line : Nat) (bs : Bytes) : (skipSpace line bs).2 <:+ bs := by
  fun_induction skipSpace line bs with
  | case1 => exact List.suffix_refl _
  | case2 line b r hb ih => exact ih.trans ((afterNewline_suffix b r).trans (List.suffix_cons b r))
  | case3 line b r hb hspace ih => exact ih.trans (List.suffix_cons b r)
  | case4 => exact List.suffix_refl _

theorem hexEscape_suffix {before : Bytes} (h : hexEscape line before bs = .ok v last rest) : rest <:+ bs := by
  unfold hexEscape badEscape at h
  split at h
  · cases h
  · split at h
    · cases h
    · cases h
    · rename_i a x c r
      split at h
      · cases h
      · cases h
        exact (List.suffix_cons _ _).trans (List.suffix_cons _ _)

theorem unicodeDigits_suffix {before : Bytes} : ∀ {bs read : Bytes} {n : Nat},
    unicodeDigits line before read n bs = .ok v last rest → rest <:+ bs
  | [], read, n, h => by
    cases h
  | b :: r, read, n, h => by
    unfold unicodeDigits at h
    split at h
    · split at h
      · exact (unicodeDigits_suffix h).trans (List.suffix_cons b r)
      · cases h
    · split at h
      · cases h
        exact List.suffix_cons b _
      · cases h

theorem unicodeEscape_suffix {before : Bytes} (h : unicodeEscape line before bs = .ok v last rest) : rest <:+ bs := by
  unfold unicodeEscape badEscape at h
  split at h
  · cases h
  · rename_i o r₁
    split at h
    · split at h
      · cases h
      · rename_i a r₂
        split at h
        · cases h
        · exact (unicodeDigits_suffix h).trans ((List.suffix_cons a r₂).trans (List.suffix_cons o _))
    · cases h

theorem decimalEscape_suffix {before : Bytes} (h : decimalEscape line before bs = .ok v last rest) : rest <:+ bs := by
  simp only [decimalEscape, badEscape] at h
  split at h
  · cases h
    exact List.drop_suffix _ bs
  · cases h

theorem readEscape_suffix {before : Bytes} (h : readEscape line before bs = .ok v last rest) : rest <:+ bs := by
  unfold readEscape badEscape at h
  split at h
  · cases h
    exact List.suffix_refl _
  · rename_i b r
    split at h
    · cases h
      exact List.suffix_cons b _
    · split_ifs at h
      · exact (hexEscape_suffix h).trans (List.suffix_cons b r)
      · exact (unicodeEscape_suffix h).trans (List.suffix_cons b r)
      · cases h
        exact (afterNewline_suffix b r).trans (List.suffix_cons b r)
      · cases h
        exact (skipSpace_suffix line r).trans (List.suffix_cons b r)
      · exact decimalEscape_suffix h

theorem readQuoted_suffix {q : UInt8} : ∀ {fuel line : Nat} {acc bs : Bytes},
    readQuoted q fuel line acc bs = .ok v last rest → rest <:+ bs
  | 0, line, acc, bs, h => by
    cases h
  | fuel + 1, line, acc, [], h => by
    cases h
  | fuel + 1, line, acc, b :: r, h => by
    unfold readQuoted at h
    split_ifs at h
    · cases h
      exact List.suffix_cons b _
    · split at h
      · rename_i w line' rest' hescape
        exact (readQuoted_suffix h).trans ((readEscape_suffix hescape).trans (List.suffix_cons b r))
      · cases h
    · exact (readQuoted_suffix h).trans (List.suffix_cons b r)

theorem numeralRun_suffix (isMark : UInt8 → Bool) : ∀ afterMark bs, (numeralRun isMark afterMark bs).2 <:+ bs
  | _, [] => List.suffix_refl _
  | afterMark, b :: r => by
    unfold numeralRun
    split_ifs
    · exact (numeralRun_suffix isMark true r).trans (List.suffix_cons b r)
    · exact (numeralRun_suffix isMark false r).trans (List.suffix_cons b r)
    · exact List.suffix_refl _

theorem afterHexMark?_suffix (h : Numeral.afterHexMark? bs = some rest) : ∃ x, bs = 48 :: x :: rest := by
  unfold Numeral.afterHexMark? at h
  split at h
  · split at h
    · obtain rfl := Option.some.inj h
      exact ⟨_, rfl⟩
    · cases h
  · cases h

/-- The extent of a numeral and what follows it. -/
def numeralExtent (bs : Bytes) : Bytes × Bytes :=
  match Numeral.afterHexMark? bs with
  | some r =>
    let p := numeralRun (fun b => b == byte 'p' || b == byte 'P') false r
    (bs.take 2 ++ p.1, p.2)
  | none => numeralRun (fun b => b == byte 'e' || b == byte 'E') false bs

/-- A name right behind a numeral belongs to its text. -/
def withName (p : Bytes × Bytes) : Bytes × Bytes :=
  match p.2 with
  | b :: r => if Byte.isNameStart b then (p.1 ++ [b], r) else p
  | [] => p

theorem splitNumeral_eq (bs : Bytes) : splitNumeral bs = withName (numeralExtent bs) := by
  unfold splitNumeral numeralExtent withName
  cases Numeral.afterHexMark? bs <;> rfl

theorem splitNumeral_suffix {r : Bytes} (hb : (Byte.isHex b || b == byte '.') = true) :
    (splitNumeral (b :: r)).2 <:+ r := by
  have hextent : (numeralExtent (b :: r)).2 <:+ r := by
    unfold numeralExtent
    split
    · rename_i r' hmark
      obtain ⟨x, hx⟩ := afterHexMark?_suffix hmark
      obtain ⟨-, rfl⟩ := List.cons.inj hx
      exact (numeralRun_suffix _ false r').trans (List.suffix_cons x r')
    · unfold numeralRun
      split_ifs with hmark hrun
      · exact numeralRun_suffix _ true r
      · exact numeralRun_suffix _ false r
      · rw [Bool.or_assoc, hb, Bool.or_true] at hrun
        exact absurd rfl hrun
  rw [splitNumeral_eq, withName]
  split
  · rename_i c r' hrest
    rw [hrest] at hextent
    split
    · exact (List.suffix_cons c r').trans hextent
    · rwa [hrest]
  · exact hextent

/-- A symbol has at least one byte and lies in the text. -/
theorem symbol?_length {s : Sym} {n : Nat} {r : Bytes} (h : symbol? (b :: r) = some (s, n)) :
    1 ≤ n ∧ n ≤ r.length + 1 := by
  have hpair : ∀ {c : Char}, (r.head? == some (byte c)) = true → 1 ≤ r.length := by
    intro c hc
    cases r with
    | nil => cases hc
    | cons d r => exact Nat.succ_le_succ (Nat.zero_le _)
  have htriple : ∀ {c : Char}, ((r.drop 1).head? == some (byte c)) = true → 2 ≤ r.length := by
    intro c hc
    rcases r with _ | ⟨d, _ | ⟨d', r⟩⟩
    · cases hc
    · cases hc
    · exact Nat.succ_le_succ (Nat.succ_le_succ (Nat.zero_le _))
  unfold symbol? at h
  dsimp only at h
  split at h <;> (try split at h) <;> (try split at h) <;> first
    | (obtain ⟨-, rfl⟩ := Prod.mk.inj (Option.some.inj h); exact ⟨by decide, by omega⟩)
    | (obtain ⟨-, rfl⟩ := Prod.mk.inj (Option.some.inj h); exact ⟨by decide, Nat.succ_le_succ (hpair ‹_›)⟩)
    | (obtain ⟨-, rfl⟩ := Prod.mk.inj (Option.some.inj h); exact ⟨by decide, Nat.succ_le_succ (htriple ‹_›)⟩)
    | cases h

end Parts

/-! ## Tokens -/

section Tokens

variable {line : Nat} {bs r rest : Bytes} {b : UInt8} {l : Lexeme}

/-- Something was read: another token than `eof`, or nothing, and the rest is one of `r`. -/
def Behind (r : Bytes) : Next → Prop
  | .token l rest => l.token ≠ .eof ∧ rest <:+ r
  | .skip _ rest => rest <:+ r
  | .error _ => True

theorem readComment_behind (line : Nat) (bs : Bytes) : Behind bs (readComment line bs) := by
  have hshort : Behind bs (.skip line (bs.dropWhile fun b => !Byte.isNewline b)) := List.dropWhile_suffix _
  unfold readComment
  dsimp only
  split
  · split
    · rename_i r level r' hlong
      split
      · rename_i last v rest htext
        exact (longText_suffix htext).trans ((longBracket?_suffix hlong).trans (List.suffix_cons _ _))
      · trivial
    · exact hshort
  · exact hshort

theorem readBracket_behind (line : Nat) (r : Bytes) : Behind r (readBracket line r) := by
  unfold readBracket
  split
  · rename_i level r' hlong
    dsimp only
    split
    · rename_i last v rest htext
      exact ⟨by simp, (longText_suffix htext).trans (longBracket?_suffix hlong)⟩
    · trivial
  · dsimp only
    split_ifs
    · exact ⟨by simp, List.suffix_refl r⟩
    · trivial

theorem wordToken_ne_eof (raw : Bytes) : wordToken raw ≠ .eof := by
  unfold wordToken
  split <;> simp

theorem isNameRest_of_isNameStart (h : Byte.isNameStart b = true) : Byte.isNameRest b = true := by
  rw [Byte.isNameRest, h, Bool.true_or]

theorem next_behind (line : Nat) (b : UInt8) (r : Bytes) : Behind r (next line (b :: r)) := by
  unfold next
  dsimp only
  split_ifs with hnewline hspace hname hnumeral hquote hcomment hbracket
  · exact afterNewline_suffix b r
  · exact List.suffix_refl r
  · refine ⟨wordToken_ne_eof _, ?_⟩
    rw [List.dropWhile_cons_of_pos (isNameRest_of_isNameStart hname)]
    exact List.dropWhile_suffix _
  · have hrest : (splitNumeral (b :: r)).2 <:+ r := by
      refine splitNumeral_suffix ?_
      rcases Bool.or_eq_true_iff.1 hnumeral with hdigit | hpoint
      · rw [Byte.isHex, Byte.hexValue?, if_pos hdigit]
        rfl
      · rw [(Bool.and_eq_true_iff.1 hpoint).1, Bool.or_true]
    rcases hsplit : splitNumeral (b :: r) with ⟨raw, rest⟩
    rw [hsplit] at hrest
    dsimp only
    split
    · exact ⟨by simp, hrest⟩
    · trivial
  · split
    · rename_i v last rest hread
      exact ⟨by simp, readQuoted_suffix hread⟩
    · trivial
  · have h := readComment_behind line (r.drop 1)
    generalize readComment line (r.drop 1) = result at h
    cases result with
    | token l rest => exact ⟨h.1, h.2.trans (List.drop_suffix 1 r)⟩
    | skip last rest => exact List.IsSuffix.trans h (List.drop_suffix 1 r)
    | error e => trivial
  · exact readBracket_behind line r
  · split
    · rename_i s n hsymbol
      obtain ⟨n, rfl⟩ := Nat.exists_eq_add_of_le' (symbol?_length hsymbol).1
      exact ⟨by simp, List.drop_suffix n r⟩
    · exact ⟨by simp, List.suffix_refl r⟩

theorem next_token (h : next line bs = .token l rest) (hl : l.token ≠ .eof) : rest.length < bs.length := by
  cases bs with
  | nil =>
    cases h
    exact absurd rfl hl
  | cons b r =>
    have hbehind := next_behind line b r
    rw [h] at hbehind
    exact Nat.lt_succ_of_le hbehind.2.length_le

theorem next_skip {last : Nat} (h : next line bs = .skip last rest) : rest.length < bs.length := by
  cases bs with
  | nil => cases h
  | cons b r =>
    have hbehind := next_behind line b r
    rw [h] at hbehind
    exact Nat.lt_succ_of_le (List.IsSuffix.length_le hbehind)

end Tokens

/-! ## The tokens of a text -/

/-- The tokens of a text that begins on a line. -/
def lexed (line : Nat) (bs : Bytes) : List Lexeme × Option SyntaxError :=
  lexFrom (bs.length + 1) line bs

theorem lexFrom_eq {fuel line : Nat} {bs : Bytes} (h : bs.length < fuel) : lexFrom fuel line bs = lexed line bs := by
  have hagree : ∀ n m line bs, bs.length < n → bs.length < m → lexFrom n line bs = lexFrom m line bs := by
    intro n
    induction n with
    | zero => intro m line bs hn; omega
    | succ n ih =>
      intro m line bs hn hm
      obtain ⟨m, rfl⟩ := Nat.exists_eq_add_of_le' (show 1 ≤ m by omega)
      rw [lexFrom, lexFrom]
      rcases hnext : next line bs with ⟨l, rest⟩ | ⟨last, rest⟩ | e
      · dsimp only
        by_cases hl : l.token = .eof
        · rw [if_pos hl, if_pos hl]
        · have hlt := next_token hnext hl
          rw [if_neg hl, if_neg hl, ih m l.line rest (by omega) (by omega)]
      · have hlt := next_skip hnext
        exact ih m last rest (by omega) (by omega)
      · rfl
  exact hagree _ _ _ _ h (Nat.lt_succ_self _)

theorem lexed_token {line : Nat} {bs rest : Bytes} {l : Lexeme} (h : next line bs = .token l rest) (hl : l.token ≠ .eof) :
    lexed line bs = (l :: (lexed l.line rest).1, (lexed l.line rest).2) := by
  have hlt := next_token h hl
  rw [lexed, lexFrom, h]
  dsimp only
  rw [if_neg hl, lexFrom_eq hlt]

theorem lexed_skip {line last : Nat} {bs rest : Bytes} (h : next line bs = .skip last rest) :
    lexed line bs = lexed last rest := by
  have hlt := next_skip h
  rw [lexed, lexFrom, h]
  exact lexFrom_eq hlt

theorem lexed_error {line : Nat} {bs : Bytes} {e : SyntaxError} (h : next line bs = .error e) :
    lexed line bs = ([], some e) := by
  rw [lexed, lexFrom, h]

theorem lexed_nil (line : Nat) : lexed line [] = ([⟨.eof, [], line⟩], none) := rfl

theorem lex_eq (program : Bytes) : lex program = lexed 1 program := rfl

/-- Induction along the looks of the lexer. -/
theorem lexed_induction {P : Nat → Bytes → Prop} (nil : ∀ line, P line [])
    (token : ∀ line bs l rest, next line bs = .token l rest → l.token ≠ .eof → P l.line rest → P line bs)
    (skip : ∀ line bs last rest, next line bs = .skip last rest → P last rest → P line bs)
    (error : ∀ line bs e, next line bs = .error e → P line bs) : ∀ line bs, P line bs := by
  suffices h : ∀ n line bs, bs.length ≤ n → P line bs from fun line bs => h bs.length line bs (Nat.le_refl _)
  intro n
  induction n with
  | zero =>
    intro line bs hn
    obtain rfl := List.length_eq_zero_iff.1 (Nat.le_zero.1 hn)
    exact nil line
  | succ n ih =>
    intro line bs hn
    rcases bs with _ | ⟨b, r⟩
    · exact nil line
    · have hbehind := next_behind line b r
      rw [List.length_cons] at hn
      rcases hnext : next line (b :: r) with ⟨l, rest⟩ | ⟨last, rest⟩ | e
      · rw [hnext] at hbehind
        have hlt := next_token hnext hbehind.1
        rw [List.length_cons] at hlt
        exact token line _ l rest hnext hbehind.1 (ih l.line rest (by omega))
      · have hlt := next_skip hnext
        rw [List.length_cons] at hlt
        exact skip line _ last rest hnext (ih last rest (by omega))
      · exact error line _ e hnext

/-- The tokens end with `eof`, or they end with an error and `eof` is not among them. -/
theorem lexed_cases (line : Nat) (bs : Bytes) :
    (∃ T e, lexed line bs = (T ++ [e], none) ∧ e.token = .eof ∧ ∀ l ∈ T, l.token ≠ .eof) ∨
      ∃ T e, lexed line bs = (T, some e) ∧ ∀ l ∈ T, l.token ≠ .eof := by
  induction line, bs using lexed_induction with
  | nil line => exact .inl ⟨[], _, rfl, rfl, by simp⟩
  | token line bs l rest hnext hl ih =>
    have hmore : ∀ {T : List Lexeme}, (∀ l ∈ T, l.token ≠ .eof) → ∀ l' ∈ l :: T, l'.token ≠ .eof :=
      fun hT l' hl' => (List.mem_cons.1 hl').elim (fun h => h ▸ hl) (hT l')
    rw [lexed_token hnext hl]
    rcases ih with ⟨T, e, h, he, hT⟩ | ⟨T, e, h, hT⟩
    · exact .inl ⟨l :: T, e, by rw [h]; rfl, he, hmore hT⟩
    · exact .inr ⟨l :: T, e, by rw [h], hmore hT⟩
  | skip line bs last rest hnext ih =>
    rw [lexed_skip hnext]
    exact ih
  | error line bs e hnext => exact .inr ⟨[], e, lexed_error hnext, by simp⟩

end Scratchpad.Lua.Lexer
