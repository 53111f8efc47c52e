import Scratchpad.Proofs.Lua.Lexer.Rest

/-!
# Lines behind a text

A line end ends every token except a string or a comment that is not closed. So the tokens of a text do not change when
lines are put behind it (`lexed_append`), and a text with a lexical error keeps one if the lines cannot close what it
leaves open (`Detached`, `lexed_append_error`).
-/

namespace Scratchpad.Lua.Lexer

/-! ## Parts of tokens before a line end -/

section Parts

variable {line last level : Nat} {v bs rest x : Bytes} {b : UInt8}

theorem takeWhile_append_stop {p : UInt8 → Bool} {c : UInt8} (h : p c = false) (bs x : Bytes) :
    (bs ++ c :: x).takeWhile p = bs.takeWhile p := by
  induction bs with
  | nil => simp [h]
  | cons b r ih =>
    rw [List.cons_append, List.takeWhile_cons, List.takeWhile_cons, ih]

theorem dropWhile_append_stop {p : UInt8 → Bool} {c : UInt8} (h : p c = false) (bs x : Bytes) :
    (bs ++ c :: x).dropWhile p = bs.dropWhile p ++ c :: x := by
  induction bs with
  | nil => simp [h]
  | cons b r ih =>
    rw [List.cons_append, List.dropWhile_cons, List.dropWhile_cons, ih]
    split <;> rfl

/-- The two bytes of a line end. -/
def IsPair (b : UInt8) (r : Bytes) : Prop :=
  b = 10 ∧ r.head? = some 13 ∨ b = 13 ∧ r.head? = some 10

instance (b : UInt8) (r : Bytes) : Decidable (IsPair b r) :=
  inferInstanceAs (Decidable (_ ∨ _))

theorem afterNewline_cons (b : UInt8) (r : Bytes) :
    afterNewline (b :: r) = if IsPair b r then r.drop 1 else r := by
  unfold afterNewline
  split
  · rename_i heq
    obtain ⟨rfl, rfl⟩ := List.cons.inj heq
    rfl
  · rename_i heq
    obtain ⟨rfl, rfl⟩ := List.cons.inj heq
    rfl
  · rename_i h₁ h₂ heq
    obtain ⟨rfl, rfl⟩ := List.cons.inj heq
    rw [if_neg]
    rintro (⟨hb, hr⟩ | ⟨hb, hr⟩)
    · obtain ⟨r', rfl⟩ := List.head?_eq_some_iff.1 hr
      exact h₁ r' hb rfl
    · obtain ⟨r', rfl⟩ := List.head?_eq_some_iff.1 hr
      exact h₂ r' hb rfl
  · rename_i heq
    cases heq

theorem afterNewline_singleton (b : UInt8) : afterNewline [b] = [] :=
  List.eq_nil_of_suffix_nil (afterNewline_suffix b [])

theorem afterNewline_append {r : Bytes} (h : r ≠ []) (b : UInt8) (y : Bytes) :
    afterNewline (b :: r ++ y) = afterNewline (b :: r) ++ y := by
  obtain ⟨c, r, rfl⟩ := List.exists_cons_of_ne_nil h
  rw [List.cons_append, afterNewline_cons, afterNewline_cons]
  by_cases hpair : IsPair b (c :: r)
  · rw [if_pos hpair, if_pos (show IsPair b (c :: r ++ y) from hpair)]
    rfl
  · rw [if_neg hpair, if_neg (show ¬ IsPair b (c :: r ++ y) from hpair)]

/-- A line feed behind a carriage return belongs to it. -/
theorem afterNewline_end (b : UInt8) :
    (∀ x, afterNewline (b :: 10 :: x) = x) ∨ ∀ x, afterNewline (b :: 10 :: x) = 10 :: x := by
  by_cases hb : b = 13
  · exact .inl fun x => by rw [afterNewline_cons, if_pos (.inr ⟨hb, rfl⟩)]; rfl
  · refine .inr fun x => ?_
    rw [afterNewline_cons, if_neg]
    rintro (⟨-, hx⟩ | ⟨hb', -⟩)
    · cases hx
    · exact hb hb'

theorem longBracket?_append {c : UInt8} (hc : c ≠ 10) (bs x : Bytes) :
    longBracket? c (bs ++ 10 :: x) = (longBracket? c bs).map fun p => (p.1, p.2 ++ 10 :: x) := by
  have hlevel : ((bs ++ 10 :: x).takeWhile (· == byte '=')).length = (bs.takeWhile (· == byte '=')).length := by
    rw [takeWhile_append_stop (by decide)]
  have hle : (bs.takeWhile (· == byte '=')).length ≤ bs.length := (List.takeWhile_prefix _).length_le
  simp only [longBracket?, hlevel, List.drop_append_of_le_length hle]
  rcases bs.drop (bs.takeWhile (· == byte '=')).length with _ | ⟨b, r⟩
  · have hne : ((10 : UInt8) == c) = false := beq_eq_false_iff_ne.2 hc.symm
    simp [hne]
  · dsimp only [List.cons_append]
    split <;> rfl

theorem afterClose?_append (level : Nat) (bs x : Bytes) :
    afterClose? level (bs ++ 10 :: x) = (afterClose? level bs).map (· ++ 10 :: x) := by
  rcases bs with _ | ⟨b, r⟩
  · rfl
  · by_cases hb : b = 93
    · subst hb
      simp only [List.cons_append, afterClose?, longBracket?_append (by decide : (93 : UInt8) ≠ 10)]
      rcases longBracket? 93 r with _ | ⟨n, r'⟩
      · rfl
      · dsimp only [Option.map_some]
        split <;> rfl
    · have hnone : ∀ r, afterClose? level (b :: r) = none := by
        intro r
        unfold afterClose?
        split
        · rename_i heq
          exact absurd (List.cons.inj heq).1 hb
        · rfl
      rw [List.cons_append, hnone, hnone, Option.map_none]

theorem longContent_append {acc : Bytes} (h : longContent level line acc bs = (last, some (v, rest))) (x : Bytes) :
    longContent level line acc (bs ++ 10 :: x) = (last, some (v, rest ++ 10 :: x)) := by
  fun_induction longContent level line acc bs with
  | case1 => cases h
  | case2 line acc b r rest' hclose =>
    simp only [Prod.mk.injEq, Option.some.injEq] at h
    obtain ⟨rfl, rfl, rfl⟩ := h
    rw [List.cons_append, longContent, ← List.cons_append, afterClose?_append, hclose]
    rfl
  | case3 line acc b r hclose hb ih =>
    have hne : r ≠ [] := by
      rintro rfl
      rw [afterNewline_singleton, longContent] at h
      cases h
    rw [List.cons_append, longContent, ← List.cons_append, afterClose?_append, hclose, if_pos hb,
      afterNewline_append hne]
    exact ih h
  | case4 line acc b r hclose hb ih =>
    rw [List.cons_append, longContent, ← List.cons_append, afterClose?_append, hclose, if_neg hb]
    exact ih h

theorem longText_append (h : longText level line bs = (last, some (v, rest))) (x : Bytes) :
    longText level line (bs ++ 10 :: x) = (last, some (v, rest ++ 10 :: x)) := by
  rcases bs with _ | ⟨b, r⟩
  · cases h
  · simp only [longText, List.cons_append] at h ⊢
    by_cases hb : Byte.isNewline b
    · rw [if_pos hb] at h ⊢
      have hne : r ≠ [] := by
        rintro rfl
        rw [afterNewline_singleton, longContent] at h
        cases h
      rw [← List.cons_append, afterNewline_append hne]
      exact longContent_append h x
    · rw [if_neg hb] at h ⊢
      exact longContent_append h x

/-- Nothing in the text closes a long bracket. -/
def ClosesNothing (x : Bytes) : Prop :=
  ∀ z, z <:+ x → ∀ level, afterClose? level z = none

theorem closesNothing_nil : ClosesNothing [] := by
  intro z hz level
  rw [List.eq_nil_of_suffix_nil hz]
  rfl

theorem ClosesNothing.suffix {y : Bytes} (h : ClosesNothing x) (hy : y <:+ x) : ClosesNothing y :=
  fun z hz => h z (hz.trans hy)

theorem ClosesNothing.newline (h : ClosesNothing x) : ClosesNothing (10 :: x) := by
  intro z hz level
  rcases List.suffix_cons_iff.1 hz with rfl | hz
  · rfl
  · exact h z hz level

theorem longContent_of_closesNothing {acc : Bytes} (h : ClosesNothing bs) : (longContent level line acc bs).2 = none := by
  fun_induction longContent level line acc bs with
  | case1 => rfl
  | case2 line acc b r rest hclose =>
    rw [h _ (List.suffix_refl _)] at hclose
    cases hclose
  | case3 line acc b r hclose hb ih => exact ih (h.suffix ((afterNewline_suffix b r).trans (List.suffix_cons b r)))
  | case4 line acc b r hclose hb ih => exact ih (h.suffix (List.suffix_cons b r))

theorem longContent_append_open {acc : Bytes} (h : (longContent level line acc bs).2 = none) (hx : ClosesNothing x) :
    (longContent level line acc (bs ++ 10 :: x)).2 = none := by
  fun_induction longContent level line acc bs with
  | case1 => exact longContent_of_closesNothing hx.newline
  | case2 line acc b r rest hclose => cases h
  | case3 line acc b r hclose hb ih =>
    rw [List.cons_append, longContent, ← List.cons_append, afterClose?_append, hclose, if_pos hb]
    change (longContent level (line + 1) (10 :: acc) (afterNewline (b :: r ++ 10 :: x))).2 = none
    by_cases hne : r = []
    · subst hne
      rcases afterNewline_end b with hend | hend
      · rw [List.singleton_append, hend]
        exact longContent_of_closesNothing hx
      · rw [List.singleton_append, hend]
        exact longContent_of_closesNothing hx.newline
    · rw [afterNewline_append hne]
      exact ih h
  | case4 line acc b r hclose hb ih =>
    rw [List.cons_append, longContent, ← List.cons_append, afterClose?_append, hclose, if_neg hb]
    exact ih h

theorem longText_append_open (h : (longText level line bs).2 = none) (hx : ClosesNothing x) :
    (longText level line (bs ++ 10 :: x)).2 = none := by
  rcases bs with _ | ⟨b, r⟩
  · simp only [longText, List.nil_append]
    rw [if_pos (show Byte.isNewline 10 = true from rfl)]
    exact longContent_of_closesNothing (hx.newline.suffix ((afterNewline_suffix 10 x).trans (List.suffix_cons 10 x)))
  · simp only [longText, List.cons_append] at h ⊢
    by_cases hb : Byte.isNewline b
    · rw [if_pos hb] at h ⊢
      by_cases hne : r = []
      · subst hne
        rcases afterNewline_end b with hend | hend
        · rw [List.nil_append, hend]
          exact longContent_of_closesNothing hx
        · rw [List.nil_append, hend]
          exact longContent_of_closesNothing hx.newline
      · rw [← List.cons_append, afterNewline_append hne]
        exact longContent_append_open h hx
    · rw [if_neg hb] at h ⊢
      exact longContent_append_open h hx

end Parts

/-! ## Escapes before a line end -/

section Escapes

variable {line : Nat} {bs x : Bytes}

/-- The text begins with a byte that is not white space. -/
def Solid (x : Bytes) : Prop :=
  ∃ c r, x = c :: r ∧ Byte.isSpace c = false

theorem isSpace_of_isNewline {b : UInt8} (h : Byte.isNewline b = true) : Byte.isSpace b = true := by
  rcases Bool.or_eq_true_iff.1 h with hb | hb <;> rw [eq_of_beq hb] <;> rfl

theorem Solid.head (h : Solid x) : ∀ b ∈ x.head?, Byte.isSpace b = false := by
  obtain ⟨c, r, rfl, hc⟩ := h
  rintro b hb
  cases hb
  exact hc

theorem Solid.skipSpace (h : Solid x) (line : Nat) : skipSpace line x = (line, x) := by
  obtain ⟨c, r, rfl, hc⟩ := h
  have hnewline : Byte.isNewline c = false := Bool.eq_false_iff.2 fun hn => by
    rw [isSpace_of_isNewline hn] at hc
    cases hc
  rw [Lexer.skipSpace, hnewline, hc]
  rfl

theorem Solid.afterNewline (h : Solid x) : afterNewline (10 :: x) = x := by
  obtain ⟨c, r, rfl, hc⟩ := h
  rw [afterNewline_cons, if_neg]
  rintro (⟨-, hr⟩ | ⟨hb, -⟩)
  · obtain rfl : c = 13 := Option.some.inj hr
    cases hc
  · exact absurd hb (by decide)

theorem Solid.skipSpace_newline (h : Solid x) (line : Nat) : Lexer.skipSpace line (10 :: x) = (line + 1, x) := by
  rw [Lexer.skipSpace, if_pos (show Byte.isNewline 10 = true from rfl), h.afterNewline, h.skipSpace]

theorem skipSpace_append (h : (skipSpace line bs).2 ≠ []) (y : Bytes) :
    skipSpace line (bs ++ y) = ((skipSpace line bs).1, (skipSpace line bs).2 ++ y) := by
  fun_induction skipSpace line bs with
  | case1 => exact absurd rfl h
  | case2 line b r hb ih =>
    have hne : r ≠ [] := by
      rintro rfl
      rw [afterNewline_singleton, skipSpace] at h
      exact h rfl
    rw [List.cons_append, skipSpace, if_pos hb, ← List.cons_append, afterNewline_append hne]
    exact ih h
  | case3 line b r hb hspace ih =>
    rw [List.cons_append, skipSpace, if_neg hb, if_pos hspace]
    exact ih h
  | case4 line b r hb hspace =>
    rw [List.cons_append, skipSpace, if_neg hb, if_neg hspace]

/-- What is left of a text behind white space; all of it, if there is none. -/
def Stripped (x y : Bytes) : Prop :=
  y <:+ x ∧ (Solid x → y = x)

theorem Stripped.refl (x : Bytes) : Stripped x x :=
  ⟨List.suffix_refl x, fun _ => rfl⟩

theorem stripped_afterNewline (x : Bytes) : Stripped x (Lexer.afterNewline (10 :: x)) :=
  ⟨afterNewline_suffix 10 x, Solid.afterNewline⟩

theorem stripped_skipSpace (line : Nat) (x : Bytes) : Stripped x (skipSpace line x).2 :=
  ⟨skipSpace_suffix line x, fun hx => by rw [hx.skipSpace]⟩

theorem stripped_skipSpace_newline (line : Nat) (x : Bytes) : Stripped x (skipSpace line (10 :: x)).2 := by
  refine ⟨?_, fun hx => by rw [hx.skipSpace_newline]⟩
  rw [skipSpace, if_pos (show Byte.isNewline 10 = true from rfl)]
  exact (skipSpace_suffix _ _).trans (afterNewline_suffix 10 x)

/-- White space at the end of a text goes on behind it. -/
theorem skipSpace_append_stripped (h : (skipSpace line bs).2 = []) (x : Bytes) :
    Stripped x (skipSpace line (bs ++ 10 :: x)).2 := by
  fun_induction skipSpace line bs with
  | case1 line => exact stripped_skipSpace_newline line x
  | case2 line b r hb ih =>
    rw [List.cons_append, skipSpace, if_pos hb]
    by_cases hne : r = []
    · subst hne
      rcases afterNewline_end b with hend | hend
      · rw [List.nil_append, hend]
        exact stripped_skipSpace (line + 1) x
      · rw [List.nil_append, hend]
        exact stripped_skipSpace_newline (line + 1) x
    · rw [← List.cons_append, afterNewline_append hne]
      exact ih h
  | case3 line b r hb hspace ih =>
    rw [List.cons_append, skipSpace, if_neg hb, if_pos hspace]
    exact ih h
  | case4 => cases h

/-- The second piece is the first one with `y` behind it. -/
def Piece.Extends (y : Bytes) : Piece → Piece → Prop
  | .ok v line rest, p => p = .ok v line (rest ++ y)
  | .error _, p => ∃ e, p = .error e

theorem badEscape_extends {y : Bytes} {message : String} {before read rest : Bytes} {message' : String}
    {read' rest' : Bytes} : Piece.Extends y (badEscape line message before read rest)
      (badEscape line message' before read' rest') :=
  ⟨_, rfl⟩

theorem hexEscape_append (line : Nat) (before bs x : Bytes) :
    Piece.Extends (10 :: x) (hexEscape line before bs) (hexEscape line before (bs ++ 10 :: x)) := by
  rcases bs with _ | ⟨a, r⟩
  · exact badEscape_extends
  · simp only [hexEscape, List.cons_append]
    rcases Byte.hexValue? a with _ | d
    · exact badEscape_extends
    · rcases r with _ | ⟨b, r⟩
      · exact badEscape_extends
      · dsimp only [List.cons_append]
        rcases Byte.hexValue? b with _ | d'
        · exact badEscape_extends
        · exact rfl

theorem unicodeDigits_append (line : Nat) (before x : Bytes) : ∀ bs read n,
    Piece.Extends (10 :: x) (unicodeDigits line before read n bs) (unicodeDigits line before read n (bs ++ 10 :: x))
  | [], read, n => ⟨_, rfl⟩
  | b :: r, read, n => by
    rw [List.cons_append]
    unfold unicodeDigits
    rcases Byte.hexValue? b with _ | d
    · dsimp only
      split
      · exact rfl
      · exact badEscape_extends
    · dsimp only
      split
      · exact unicodeDigits_append line before x r _ _
      · exact badEscape_extends

theorem unicodeEscape_append (line : Nat) (before bs x : Bytes) :
    Piece.Extends (10 :: x) (unicodeEscape line before bs) (unicodeEscape line before (bs ++ 10 :: x)) := by
  rcases bs with _ | ⟨o, r⟩
  · exact badEscape_extends
  · simp only [unicodeEscape, List.cons_append]
    split
    · rcases r with _ | ⟨a, r⟩
      · exact badEscape_extends
      · dsimp only [List.cons_append]
        rcases Byte.hexValue? a with _ | d
        · exact badEscape_extends
        · exact unicodeDigits_append line before x r _ _
    · exact badEscape_extends

theorem decimalEscape_append (line : Nat) (before bs x : Bytes) :
    Piece.Extends (10 :: x) (decimalEscape line before bs) (decimalEscape line before (bs ++ 10 :: x)) := by
  have hdigits : ((bs ++ 10 :: x).take 3).takeWhile Byte.isDigit = (bs.take 3).takeWhile Byte.isDigit := by
    rw [List.take_append]
    rcases hk : 3 - bs.length with _ | k
    · rw [List.take_zero, List.append_nil]
    · rw [List.take_succ_cons, takeWhile_append_stop rfl]
  have hle : ((bs.take 3).takeWhile Byte.isDigit).length ≤ bs.length :=
    (List.takeWhile_prefix _).length_le.trans (List.length_take_le' _ _)
  simp only [decimalEscape, hdigits, List.drop_append_of_le_length hle]
  split
  · exact rfl
  · exact badEscape_extends

/-- An escape before a line end is the same, unless it takes the line end along. -/
theorem readEscape_append (line : Nat) (before bs : Bytes) :
    (∀ x, Piece.Extends (10 :: x) (readEscape line before bs) (readEscape line before (bs ++ 10 :: x))) ∨
      (∃ v last, readEscape line before bs = .ok v last []) ∧
        ∀ x, ∃ v last y, Stripped x y ∧ readEscape line before (bs ++ 10 :: x) = .ok v last y := by
  rcases bs with _ | ⟨b, r⟩
  · exact .inr ⟨⟨_, _, rfl⟩, fun x => ⟨[10], line + 1, _, stripped_afterNewline x, rfl⟩⟩
  · simp only [readEscape, List.cons_append]
    rcases letterEscape? b with _ | w
    · dsimp only
      split_ifs with hhex hunicode hnewline hz hdigit
      · exact .inl fun x => hexEscape_append line before r x
      · exact .inl fun x => unicodeEscape_append line before r x
      · by_cases hne : r = []
        · subst hne
          simp only [List.nil_append, afterNewline_singleton]
          rcases afterNewline_end b with hend | hend
          · exact .inr ⟨⟨_, _, rfl⟩, fun x => ⟨_, _, x, .refl x, by rw [hend]⟩⟩
          · exact .inl fun x => by rw [hend]; exact rfl
        · refine .inl fun x => ?_
          rw [← List.cons_append, afterNewline_append hne]
          exact rfl
      · by_cases hrest : (skipSpace line r).2 = []
        · exact .inr ⟨⟨[], (skipSpace line r).1, by rw [← hrest]⟩,
            fun x => ⟨[], _, _, skipSpace_append_stripped hrest x, rfl⟩⟩
        · refine .inl fun x => ?_
          rw [skipSpace_append hrest]
          exact rfl
      · exact .inl fun x => decimalEscape_append line before (b :: r) x
      · exact .inl fun x => badEscape_extends
    · exact .inl fun x => rfl

end Escapes

/-! ## Strings before a line end -/

section Strings

variable {x v rest : Bytes} {q : UInt8} {last : Nat}

theorem readQuoted_nil (q : UInt8) (fuel line : Nat) (acc : Bytes) :
    readQuoted q fuel line acc [] = .error (errorAtEnd line "unfinished string") := by
  cases fuel <;> rfl

theorem readQuoted_append (x : Bytes) : ∀ {fuel fuel' line : Nat} {acc bs : Bytes}, fuel ≤ fuel' →
    readQuoted q fuel line acc bs = .ok v last rest →
      readQuoted q fuel' line acc (bs ++ 10 :: x) = .ok v last (rest ++ 10 :: x)
  | 0, _, line, acc, bs, _, h => by
    cases h
  | fuel + 1, _, line, acc, [], _, h => by
    cases h
  | fuel + 1, fuel', line, acc, b :: r, hfuel, h => by
    obtain ⟨fuel', rfl⟩ := Nat.exists_eq_add_of_le' (show 1 ≤ fuel' by omega)
    rw [List.cons_append]
    rw [readQuoted] at h ⊢
    split_ifs at h ⊢
    · cases h
      rfl
    · have hescape := readEscape_append line (q :: acc.reverse) r
      rcases hpiece : readEscape line (q :: acc.reverse) r with ⟨w, line', rest'⟩ | e
      · rw [hpiece] at h hescape
        rcases hescape with hext | ⟨⟨w', last', hnil⟩, -⟩
        · rw [hext x]
          exact readQuoted_append x (by omega) h
        · obtain ⟨-, -, rfl⟩ := Piece.ok.inj hnil
          dsimp only at h
          rw [readQuoted_nil] at h
          cases h
      · rw [hpiece] at h
        cases h
    · exact readQuoted_append x (by omega) h

/-- The string is not finished, or what follows it has a lexical error. -/
def Quoted.Fails : Quoted → Prop
  | .ok _ _ rest => ∀ line, (lexed line rest).2 ≠ none
  | .error _ => True

/-- A string that the text before `x` leaves open fails in `x`. -/
def Unquotes (q : UInt8) (x : Bytes) : Prop :=
  ∀ fuel line acc, x.length < fuel → (readQuoted q fuel line acc x).Fails

theorem readQuoted_append_open (hx : Solid x) (hq : q ≠ 10) (hquoted : Unquotes q x) {e : SyntaxError} :
    ∀ {fuel fuel' line : Nat} {acc bs : Bytes}, bs.length < fuel → (bs ++ 10 :: x).length < fuel' →
      readQuoted q fuel line acc bs = .error e → (readQuoted q fuel' line acc (bs ++ 10 :: x)).Fails
  | 0, _, line, acc, bs, hfuel, _, _ => absurd hfuel (Nat.not_lt_zero _)
  | fuel + 1, fuel', line, acc, [], _, hfuel', _ => by
    obtain ⟨fuel', rfl⟩ := Nat.exists_eq_add_of_le' (show 1 ≤ fuel' by omega)
    rw [List.nil_append, readQuoted, if_neg (by simpa using hq.symm), if_pos (show Byte.isNewline 10 = true from rfl)]
    trivial
  | fuel + 1, fuel', line, acc, b :: r, hfuel, hfuel', h => by
    obtain ⟨fuel', rfl⟩ := Nat.exists_eq_add_of_le' (show 1 ≤ fuel' by omega)
    rw [List.length_cons] at hfuel
    rw [List.cons_append, List.length_cons] at hfuel'
    rw [List.cons_append]
    rw [readQuoted] at h ⊢
    split_ifs at h ⊢
    · trivial
    · have hescape := readEscape_append line (q :: acc.reverse) r
      rcases hpiece : readEscape line (q :: acc.reverse) r with ⟨w, line', rest'⟩ | e'
      · have hle := (readEscape_suffix hpiece).length_le
        rw [hpiece] at h hescape
        rw [List.length_append, List.length_cons] at hfuel'
        rcases hescape with hext | ⟨-, hmore⟩
        · rw [hext x]
          exact readQuoted_append_open hx hq hquoted (by omega) (by rw [List.length_append, List.length_cons]; omega) h
        · obtain ⟨w', last', y, hy, hthere⟩ := hmore x
          rw [hthere, hy.2 hx]
          exact hquoted fuel' last' _ (by omega)
      · rw [hpiece] at hescape
        rcases hescape with hext | ⟨⟨w', last', hnil⟩, -⟩
        · obtain ⟨e'', hthere⟩ := hext x
          rw [hthere]
          trivial
        · cases hnil
    · exact readQuoted_append_open hx hq hquoted (by omega) (by omega) h

end Strings

/-! ## Numerals before a line end -/

theorem numeralRun_append {isMark : UInt8 → Bool} (hmark : isMark 10 = false) (x : Bytes) : ∀ afterMark bs,
    numeralRun isMark afterMark (bs ++ 10 :: x) =
      ((numeralRun isMark afterMark bs).1, (numeralRun isMark afterMark bs).2 ++ 10 :: x)
  | afterMark, [] => by
    have hstop : (afterMark && ((10 : UInt8) == byte '+' || (10 : UInt8) == byte '-') || Byte.isHex 10 ||
        (10 : UInt8) == byte '.') = false := by
      cases afterMark <;> rfl
    rw [List.nil_append]
    unfold numeralRun
    rw [if_neg (by rw [hmark]; simp), if_neg (by rw [hstop]; simp)]
    rfl
  | afterMark, b :: r => by
    rw [List.cons_append, numeralRun, numeralRun]
    split_ifs
    · rw [numeralRun_append hmark x true r]
    · rw [numeralRun_append hmark x false r]
    · rfl

theorem afterHexMark?_cons (a b : UInt8) (r : Bytes) : Numeral.afterHexMark? (a :: b :: r) =
    if a = 48 ∧ (b == byte 'x' || b == byte 'X') = true then some r else none := by
  by_cases ha : a = 48
  · subst ha
    simp only [Numeral.afterHexMark?, true_and]
  · rw [if_neg fun h => ha h.1]
    unfold Numeral.afterHexMark?
    split
    · rename_i heq
      exact absurd (List.cons.inj heq).1 ha
    · rfl

theorem afterHexMark?_append (bs x : Bytes) :
    Numeral.afterHexMark? (bs ++ 10 :: x) = (Numeral.afterHexMark? bs).map (· ++ 10 :: x) := by
  rcases bs with _ | ⟨a, _ | ⟨b, r⟩⟩
  · rfl
  · have hnone : Numeral.afterHexMark? [a] = none := by
      unfold Numeral.afterHexMark?
      split
      · rename_i heq
        cases heq
      · rfl
    rw [hnone, List.singleton_append, afterHexMark?_cons, if_neg fun h => absurd h.2 (by decide)]
    rfl
  · rw [List.cons_append, List.cons_append, afterHexMark?_cons, afterHexMark?_cons]
    split <;> rfl

theorem splitNumeral_append (bs x : Bytes) :
    splitNumeral (bs ++ 10 :: x) = ((splitNumeral bs).1, (splitNumeral bs).2 ++ 10 :: x) := by
  have hextent : numeralExtent (bs ++ 10 :: x) = ((numeralExtent bs).1, (numeralExtent bs).2 ++ 10 :: x) := by
    unfold numeralExtent
    rw [afterHexMark?_append]
    rcases hmark : Numeral.afterHexMark? bs with _ | r
    · exact numeralRun_append rfl x false bs
    · obtain ⟨c, rfl⟩ := afterHexMark?_suffix hmark
      dsimp only [Option.map_some]
      rw [numeralRun_append rfl x false r]
      rfl
  rw [splitNumeral_eq, splitNumeral_eq, hextent]
  rcases numeralExtent bs with ⟨run, _ | ⟨b, r⟩⟩
  · rfl
  · simp only [withName, List.cons_append]
    split <;> rfl

/-! ## Tokens before a line end -/

section Tokens

variable {line : Nat} {x : Bytes}

/-- The second look is the first one with a line end and `x` behind it; white space may take the line end along.
Nothing is said of a look that ends with an error. -/
def Next.Extends (x : Bytes) : Next → Next → Prop
  | .token l rest, n => n = .token l (rest ++ 10 :: x)
  | .skip last rest, n => n = .skip last (rest ++ 10 :: x) ∨ rest = [] ∧ n = .skip last x
  | .error _, _ => True

/-- A comment that begins with a bracket. -/
theorem readComment_bracket (line : Nat) (r : Bytes) : readComment line (91 :: r) =
    match longBracket? 91 r with
    | some (level, r') =>
      match longText level line r' with
      | (last, some (_, rest)) => .skip last rest
      | (last, none) => .error (errorAtEnd last ("unfinished long comment (starting at line " ++ toString line ++ ")"))
    | none => .skip line ((91 :: r).dropWhile fun b => !Byte.isNewline b) :=
  rfl

/-- A comment that does not begin with a bracket ends with its line. -/
theorem readComment_other {bs : Bytes} (h : bs.head? ≠ some 91) (line : Nat) :
    readComment line bs = .skip line (bs.dropWhile fun b => !Byte.isNewline b) := by
  unfold readComment
  dsimp only
  split
  · exact absurd rfl h
  · rfl

theorem readComment_append (line : Nat) (bs x : Bytes) :
    Next.Extends x (readComment line bs) (readComment line (bs ++ 10 :: x)) := by
  have hshort : ((bs ++ 10 :: x).dropWhile fun b => !Byte.isNewline b) =
      (bs.dropWhile fun b => !Byte.isNewline b) ++ 10 :: x := dropWhile_append_stop rfl bs x
  by_cases hb : bs.head? = some 91
  · obtain ⟨r, rfl⟩ := List.head?_eq_some_iff.1 hb
    rw [List.cons_append] at hshort ⊢
    rw [readComment_bracket, readComment_bracket, longBracket?_append (by decide : (91 : UInt8) ≠ 10), hshort]
    rcases longBracket? 91 r with _ | ⟨level, r'⟩
    · exact .inl rfl
    · dsimp only [Option.map_some]
      rcases htext : longText level line r' with ⟨last, _ | ⟨v, rest⟩⟩
      · trivial
      · rw [longText_append htext x]
        exact .inl rfl
  · have hb' : (bs ++ 10 :: x).head? ≠ some 91 := by
      cases bs with
      | nil => simp
      | cons b r => exact hb
    rw [readComment_other hb, readComment_other hb', hshort]
    exact .inl rfl

theorem readBracket_append (line : Nat) (r x : Bytes) :
    Next.Extends x (readBracket line r) (readBracket line (r ++ 10 :: x)) := by
  have hrun : (r ++ 10 :: x).takeWhile (· == byte '=') = r.takeWhile (· == byte '=') := takeWhile_append_stop rfl r x
  simp only [readBracket, longBracket?_append (by decide : (91 : UInt8) ≠ 10)]
  rw [hrun]
  rcases hlong : longBracket? 91 r with _ | ⟨level, r'⟩
  · dsimp only [Option.map_none]
    split_ifs
    · exact rfl
    · trivial
  · dsimp only [Option.map_some]
    rcases htext : longText level line r' with ⟨last, _ | ⟨v, rest⟩⟩
    · trivial
    · rw [longText_append htext x]
      exact rfl

theorem symbol?_append (b : UInt8) (r x : Bytes) : symbol? (b :: (r ++ 10 :: x)) = symbol? (b :: r) := by
  rcases r with _ | ⟨c, _ | ⟨d, r⟩⟩
  · rfl
  · rfl
  · rfl

/-- A byte that begins a quoted string. -/
def isQuote (b : UInt8) : Bool :=
  b == byte '\x22' || b == byte '\x27'

theorem next_quoted {b : UInt8} (hb : isQuote b = true) (line : Nat) (r : Bytes) :
    next line (b :: r) = match readQuoted b (r.length + 1) line [] r with
      | .ok v line rest => .token ⟨.str v, b :: v ++ [b], line⟩ rest
      | .error e => .error e := by
  rcases Bool.or_eq_true_iff.1 hb with hb | hb
  · rw [eq_of_beq hb]
    rfl
  · rw [eq_of_beq hb]
    rfl

/-- A look that ends without an error does not depend on the lines behind the text. -/
theorem next_append (line : Nat) (b : UInt8) (r x : Bytes) :
    Next.Extends x (next line (b :: r)) (next line (b :: r ++ 10 :: x)) := by
  have hdigit : (r ++ 10 :: x).head?.any Byte.isDigit = r.head?.any Byte.isDigit := by
    cases r <;> rfl
  have hdash : ((r ++ 10 :: x).head? == some (byte '-')) = (r.head? == some (byte '-')) := by
    cases r <;> rfl
  rw [List.cons_append]
  unfold next
  dsimp only
  rw [hdigit, hdash]
  split_ifs with hnewline hspace hname hnumeral hquote hcomment hbracket
  · by_cases hne : r = []
    · subst hne
      rw [afterNewline_singleton]
      rcases afterNewline_end b with hend | hend
      · exact .inr ⟨rfl, by rw [List.nil_append, hend]⟩
      · exact .inl (by rw [List.nil_append, hend])
    · exact .inl (by rw [← List.cons_append, afterNewline_append hne])
  · exact .inl rfl
  · rw [← List.cons_append, takeWhile_append_stop rfl, dropWhile_append_stop rfl]
    exact rfl
  · rw [← List.cons_append, splitNumeral_append]
    rcases splitNumeral (b :: r) with ⟨raw, rest⟩
    dsimp only
    split
    · exact rfl
    · trivial
  · rcases hread : readQuoted b (r.length + 1) line [] r with ⟨v, last, rest⟩ | e
    · rw [readQuoted_append x (by simp) hread]
      exact rfl
    · trivial
  · have hne : r ≠ [] := by
      rintro rfl
      rw [Bool.and_eq_true_iff] at hcomment
      cases hcomment.2
    rw [List.drop_append_of_le_length (List.length_pos_of_ne_nil hne)]
    exact readComment_append line (r.drop 1) x
  · exact readBracket_append line r x
  · rw [symbol?_append]
    rcases hsymbol : symbol? (b :: r) with _ | ⟨s, n⟩
    · exact rfl
    · dsimp only
      rw [← List.cons_append, List.drop_append_of_le_length (symbol?_length hsymbol).2]
      exact rfl

/-- A token is found before other lines too. -/
theorem next_append_token {line : Nat} {bs rest : Bytes} {l : Lexeme} (h : next line bs = .token l rest)
    (hl : l.token ≠ .eof) (x : Bytes) : next line (bs ++ 10 :: x) = .token l (rest ++ 10 :: x) := by
  rcases bs with _ | ⟨b, r⟩
  · cases h
    exact absurd rfl hl
  · have hext := next_append line b r x
    rwa [h] at hext

/-- What is skipped is skipped before other lines too, at the end of the text possibly with the line feed behind it. -/
theorem next_append_skip {line last : Nat} {bs rest : Bytes} (h : next line bs = .skip last rest) (x : Bytes) :
    next line (bs ++ 10 :: x) = .skip last (rest ++ 10 :: x) ∨ rest = [] ∧ next line (bs ++ 10 :: x) = .skip last x := by
  rcases bs with _ | ⟨b, r⟩
  · cases h
  · have hext := next_append line b r x
    rwa [h] at hext

/-! ### Looks that end with an error -/

/-- The error of a program that ends inside a string or a comment. -/
def IsAtEnd (e : SyntaxError) : Prop :=
  ∃ line message, e = errorAtEnd line message

/-- Why a look at a text ends with a lexical error. -/
inductive Faulty (line : Nat) (b : UInt8) (r : Bytes) : Prop where
  /-- There is an error whatever follows. -/
  | ill (h : ∀ x, ∃ e, next line (b :: r ++ 10 :: x) = .error e)
  /-- A quoted string is not finished. -/
  | quoted (hb : isQuote b = true) (e : SyntaxError) (h : readQuoted b (r.length + 1) line [] r = .error e)
  /-- A long string or comment is not closed. -/
  | long (level : Nat) (bs : Bytes) (hopen : (longText level line bs).2 = none)
    (h : ∀ x, (longText level line (bs ++ 10 :: x)).2 = none →
      ∃ e, IsAtEnd e ∧ next line (b :: r ++ 10 :: x) = .error e)

/-- What an error of a long text is. -/
theorem faulty_comment {b : UInt8} {r : Bytes} {e : SyntaxError} (h : readComment line r = .error e)
    (hnext : ∀ x, next line (b :: 45 :: r ++ 10 :: x) = readComment line (r ++ 10 :: x)) :
    Faulty line b (45 :: r) := by
  by_cases hb : r.head? = some 91
  · obtain ⟨r, rfl⟩ := List.head?_eq_some_iff.1 hb
    rw [readComment_bracket] at h
    rcases hlong : longBracket? 91 r with _ | ⟨level, r'⟩
    · rw [hlong] at h
      cases h
    · rcases htext : longText level line r' with ⟨last, _ | ⟨v, rest⟩⟩
      · refine .long level r' (by rw [htext]) fun x hx => ?_
        rw [hnext, List.cons_append, readComment_bracket, longBracket?_append (by decide : (91 : UInt8) ≠ 10), hlong]
        dsimp only [Option.map_some]
        rcases htext' : longText level line (r' ++ 10 :: x) with ⟨last', content⟩
        rw [htext'] at hx
        obtain rfl : content = none := hx
        exact ⟨_, ⟨_, _, rfl⟩, rfl⟩
      · rw [hlong] at h
        dsimp only at h
        rw [htext] at h
        cases h
  · rw [readComment_other hb] at h
    cases h

theorem faulty_bracket {b : UInt8} {r : Bytes} {e : SyntaxError} (h : readBracket line r = .error e)
    (hnext : ∀ x, next line (b :: r ++ 10 :: x) = readBracket line (r ++ 10 :: x)) : Faulty line b r := by
  have hrun : ∀ x, (r ++ 10 :: x).takeWhile (· == byte '=') = r.takeWhile (· == byte '=') :=
    takeWhile_append_stop rfl r
  unfold readBracket at h
  rcases hlong : longBracket? 91 r with _ | ⟨level, r'⟩
  · rw [hlong] at h
    dsimp only at h
    split_ifs at h with hempty
    refine .ill fun x => ⟨errorNear line "invalid long string delimiter" (91 :: r.takeWhile (· == byte '=')), ?_⟩
    rw [hnext, readBracket, longBracket?_append (by decide : (91 : UInt8) ≠ 10), hlong, Option.map_none]
    dsimp only
    rw [hrun, if_neg hempty]
  · rw [hlong] at h
    dsimp only at h
    rcases htext : longText level line r' with ⟨last, _ | ⟨v, rest⟩⟩
    · refine .long level r' (by rw [htext]) fun x hx => ?_
      rw [hnext, readBracket, longBracket?_append (by decide : (91 : UInt8) ≠ 10), hlong]
      dsimp only [Option.map_some]
      rcases htext' : longText level line (r' ++ 10 :: x) with ⟨last', content⟩
      rw [htext'] at hx
      obtain rfl : content = none := hx
      exact ⟨_, ⟨_, _, rfl⟩, rfl⟩
    · rw [htext] at h
      cases h

theorem next_append_error {b : UInt8} {r : Bytes} {e : SyntaxError} (h : next line (b :: r) = .error e) :
    Faulty line b r := by
  have hdigit : ∀ x, (r ++ 10 :: x).head?.any Byte.isDigit = r.head?.any Byte.isDigit := by
    intro x
    cases r <;> rfl
  have hdash : ∀ x, ((r ++ 10 :: x).head? == some (byte '-')) = (r.head? == some (byte '-')) := by
    intro x
    cases r <;> rfl
  unfold next at h
  dsimp only at h
  split_ifs at h with hnewline hspace hname hnumeral hquote hcomment hbracket
  · rcases hsplit : splitNumeral (b :: r) with ⟨raw, rest⟩
    rw [hsplit] at h
    dsimp only at h
    split at h
    · cases h
    · rename_i hnumber
      refine .ill fun x => ⟨errorNear line "malformed number" raw, ?_⟩
      rw [List.cons_append, next, hdigit, if_neg hnewline, if_neg hspace, if_neg hname, if_pos hnumeral,
        ← List.cons_append, splitNumeral_append, hsplit]
      dsimp only
      rw [hnumber]
  · rcases hread : readQuoted b (r.length + 1) line [] r with ⟨v, last, rest⟩ | e'
    · rw [hread] at h
      cases h
    · exact .quoted hquote e' hread
  · obtain ⟨hb, hr⟩ := Bool.and_eq_true_iff.1 hcomment
    obtain ⟨r, rfl⟩ := List.head?_eq_some_iff.1 (eq_of_beq hr)
    obtain rfl := eq_of_beq hb
    exact faulty_comment h fun x => rfl
  · obtain rfl := eq_of_beq hbracket
    exact faulty_bracket h fun x => rfl
  · split at h
    · cases h
    · cases h

/-! ### Lines that nothing goes on in -/

/-- Lines that are not taken for a part of what the text before them leaves open. -/
structure Detached (x : Bytes) : Prop where
  solid : Solid x
  closesNothing : ClosesNothing x
  unquotes : ∀ q, isQuote q = true → Unquotes q x

/-- The look ends with a lexical error, or there is one further on. -/
def Next.Fails : Next → Prop
  | .token _ rest => ∀ line, (lexed line rest).2 ≠ none
  | .skip _ _ => False
  | .error _ => True

theorem next_append_fails (hx : Detached x) {b : UInt8} {r : Bytes} {e : SyntaxError}
    (h : next line (b :: r) = .error e) : (next line (b :: r ++ 10 :: x)).Fails := by
  cases next_append_error h with
  | ill hill =>
    obtain ⟨e', he'⟩ := hill x
    rw [he']
    trivial
  | quoted hb e' hread =>
    have hne : b ≠ 10 := by
      rintro rfl
      cases hb
    have hfails : (readQuoted b ((r ++ 10 :: x).length + 1) line [] (r ++ 10 :: x)).Fails :=
      readQuoted_append_open hx.solid hne (hx.unquotes b hb) (Nat.lt_succ_self _) (Nat.lt_succ_self _) hread
    rw [List.cons_append, next_quoted hb]
    rcases hread' : readQuoted b ((r ++ 10 :: x).length + 1) line [] (r ++ 10 :: x) with ⟨v, last, rest⟩ | e'
    · rw [hread'] at hfails
      exact hfails
    · trivial
  | long level bs hopen hmore =>
    obtain ⟨e', -, he'⟩ := hmore x (longText_append_open hopen hx.closesNothing)
    rw [he']
    trivial

end Tokens

/-! ## Lines behind a text -/

/-- A text without lexical errors has the same tokens before other lines. -/
theorem lexed_append {x : Bytes} (hx : Detached x) (line : Nat) (bs : Bytes) : (lexed line bs).2 = none →
    ∃ last, lexed line (bs ++ 10 :: x) = ((lexed line bs).1.dropLast ++ (lexed last x).1, (lexed last x).2) := by
  induction line, bs using lexed_induction with
  | nil line =>
    intro _
    have hnext : next line (10 :: x) = .skip (line + 1) x := by
      rw [next, if_pos (show Byte.isNewline 10 = true from rfl), hx.solid.afterNewline]
    exact ⟨line + 1, lexed_skip hnext⟩
  | token line bs l rest hnext hl ih =>
    intro hnone
    rw [lexed_token hnext hl] at hnone ⊢
    obtain ⟨last, hrest⟩ := ih hnone
    have hne : (lexed l.line rest).1 ≠ [] := by
      rcases lexed_cases l.line rest with ⟨T, e, h, -⟩ | ⟨T, e, h, -⟩
      · rw [h]
        simp
      · rw [h] at hnone
        cases hnone
    refine ⟨last, ?_⟩
    rw [lexed_token (next_append_token hnext hl x) hl, hrest, List.dropLast_cons_of_ne_nil hne]
    rfl
  | skip line bs last rest hnext ih =>
    intro hnone
    rw [lexed_skip hnext] at hnone ⊢
    rcases next_append_skip hnext x with hext | ⟨rfl, hext⟩
    · rw [lexed_skip hext]
      exact ih hnone
    · exact ⟨last, lexed_skip hext⟩
  | error line bs e hnext =>
    intro hnone
    rw [lexed_error hnext] at hnone
    cases hnone

/-- A text with a lexical error has one before other lines. -/
theorem lexed_append_error {x : Bytes} (hx : Detached x) (line : Nat) (bs : Bytes) :
    (lexed line bs).2 ≠ none → (lexed line (bs ++ 10 :: x)).2 ≠ none := by
  induction line, bs using lexed_induction with
  | nil line => exact fun h => absurd rfl h
  | token line bs l rest hnext hl ih =>
    intro herror
    rw [lexed_token hnext hl] at herror
    rw [lexed_token (next_append_token hnext hl x) hl]
    exact ih herror
  | skip line bs last rest hnext ih =>
    intro herror
    rw [lexed_skip hnext] at herror
    rcases next_append_skip hnext x with hext | ⟨rfl, -⟩
    · rw [lexed_skip hext]
      exact ih herror
    · exact absurd rfl herror
  | error line bs e hnext =>
    intro _
    rcases bs with _ | ⟨b, r⟩
    · cases hnext
    · have hfails := next_append_fails hx hnext
      have hbehind := next_behind line b (r ++ 10 :: x)
      rw [List.cons_append] at hfails ⊢
      rcases hthere : next line (b :: (r ++ 10 :: x)) with ⟨l, rest⟩ | ⟨last, rest⟩ | e'
      · rw [hthere] at hfails hbehind
        rw [lexed_token hthere hbehind.1]
        exact hfails l.line
      · rw [hthere] at hfails
        exact hfails.elim
      · rw [lexed_error hthere]
        simp

end Scratchpad.Lua.Lexer
