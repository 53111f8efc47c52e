import Scratchpad.Proofs.Lua.Lexer.Appended
import Scratchpad.Proofs.Lua.Parser.Appended

/-!
# The tokens of lines that copy and return variables

The lines that make variables last are texts of their own (`lineBytes`): they have the tokens that they are meant to
have (`lexes_lines`), and no string or comment that a text before them leaves open ends in them (`detached_lines`).
-/

namespace Scratchpad.Lua.Lexer

open Lua.Parser (copyTokens returnTokens)

/-! ## Texts and their tokens -/

/-- The text has these tokens, on whatever line it begins. -/
def Lexes (bs : Bytes) (ts : List Token) : Prop :=
  ∀ line, ∃ ls, lexed line bs = (ls, none) ∧ ls.map Lexeme.token = ts

/-- What is needed of the bytes of a name or reserved word. -/
structure IsWord (w : Bytes) : Prop where
  start : ∃ c r, w = c :: r ∧ Byte.isNameStart c = true
  rest : ∀ b ∈ w, Byte.isNameRest b = true

/-- A name that is no reserved word. -/
structure IsName (w : Bytes) : Prop extends IsWord w where
  free : wordToken w = .name w

/-- No word goes on in the text. -/
def Ends (rest : Bytes) : Prop :=
  ∀ b ∈ rest.head?, Byte.isNameRest b = false

section Lexes

variable {bs rest w v : Bytes} {ts : List Token} {t : Token}

theorem lexes_nil : Lexes [] [.eof] :=
  fun line => ⟨_, lexed_nil line, rfl⟩

theorem Lexes.token (h : Lexes rest ts) (hnext : ∀ line, ∃ raw last, next line bs = .token ⟨t, raw, last⟩ rest)
    (ht : t ≠ .eof) : Lexes bs (t :: ts) := by
  intro line
  obtain ⟨raw, last, hnext⟩ := hnext line
  obtain ⟨ls, hls, hmap⟩ := h last
  refine ⟨⟨t, raw, last⟩ :: ls, ?_, by rw [List.map_cons, hmap]⟩
  rw [lexed_token hnext ht, hls]

theorem Lexes.skip (h : Lexes rest ts) (hnext : ∀ line, ∃ last, next line bs = .skip last rest) : Lexes bs ts := by
  intro line
  obtain ⟨last, hnext⟩ := hnext line
  rw [lexed_skip hnext]
  exact h last

theorem Lexes.space (h : Lexes rest ts) : Lexes (32 :: rest) ts :=
  h.skip fun line => ⟨line, rfl⟩

theorem Lexes.newline (h : Lexes rest ts) (hrest : Solid rest) : Lexes (10 :: rest) ts :=
  h.skip fun line => ⟨line + 1, by
    rw [next, if_pos (show Byte.isNewline 10 = true from rfl), hrest.afterNewline]⟩

theorem isSpace_of_isNameRest {b : UInt8} (h : Byte.isNameRest b = true) : Byte.isSpace b = false := by
  have hle : 48 ≤ b.toNat := by
    simp only [Byte.isNameRest, Byte.isNameStart, Byte.isAlpha, Byte.isUpper, Byte.isLower, Byte.isDigit,
      Bool.or_eq_true, Bool.and_eq_true, decide_eq_true_eq, beq_iff_eq, UInt8.le_iff_toNat_le] at h
    rcases h with ((⟨hA, -⟩ | ⟨ha, -⟩) | rfl) | ⟨h0, -⟩
    · exact Nat.le_trans (by decide : 48 ≤ (byte 'A').toNat) hA
    · exact Nat.le_trans (by decide : 48 ≤ (byte 'a').toNat) ha
    · decide
    · exact h0
  refine Bool.eq_false_iff.2 fun hspace => ?_
  simp only [Byte.isSpace, Bool.or_eq_true, Bool.and_eq_true, decide_eq_true_eq, beq_iff_eq,
    UInt8.le_iff_toNat_le] at hspace
  rcases hspace with rfl | ⟨-, h13⟩
  · exact absurd hle (by decide)
  · exact absurd (Nat.le_trans hle h13) (by decide)

theorem isSpace_of_isNameStart {b : UInt8} (h : Byte.isNameStart b = true) : Byte.isSpace b = false :=
  isSpace_of_isNameRest (isNameRest_of_isNameStart h)

theorem IsWord.takeWhile (h : IsWord w) (hrest : Ends rest) : (w ++ rest).takeWhile Byte.isNameRest = w := by
  rw [List.takeWhile_append_of_pos h.rest]
  cases rest with
  | nil => simp
  | cons b r => rw [List.takeWhile_cons_of_neg (by rw [hrest b rfl]; simp), List.append_nil]

theorem IsWord.dropWhile (h : IsWord w) (hrest : Ends rest) : (w ++ rest).dropWhile Byte.isNameRest = rest := by
  rw [List.dropWhile_append_of_pos h.rest]
  cases rest with
  | nil => rfl
  | cons b r => rw [List.dropWhile_cons_of_neg (by rw [hrest b rfl]; simp)]

theorem IsWord.next (h : IsWord w) (hrest : Ends rest) (line : Nat) :
    next line (w ++ rest) = .token ⟨wordToken w, w, line⟩ rest := by
  have htake := h.takeWhile hrest
  have hdrop := h.dropWhile hrest
  obtain ⟨c, r, rfl, hc⟩ := h.start
  have hspace := isSpace_of_isNameStart hc
  have hnewline : Byte.isNewline c = false := Bool.eq_false_iff.2 fun hn => by
    rw [isSpace_of_isNewline hn] at hspace
    cases hspace
  rw [List.cons_append] at htake hdrop ⊢
  rw [Lexer.next, hnewline, hspace, hc, htake, hdrop]
  rfl

theorem IsWord.lexed (h : IsWord w) (hrest : Ends rest) (line : Nat) : lexed line (w ++ rest) =
    (⟨wordToken w, w, line⟩ :: (Lexer.lexed line rest).1, (Lexer.lexed line rest).2) :=
  lexed_token (h.next hrest line) (wordToken_ne_eof w)

theorem Lexes.word (h : Lexes rest ts) (hw : IsWord w) (hrest : Ends rest) : Lexes (w ++ rest) (wordToken w :: ts) :=
  h.token (fun line => ⟨w, line, hw.next hrest line⟩) (wordToken_ne_eof w)

theorem Lexes.name (h : Lexes rest ts) (hw : IsName w) (hrest : Ends rest) : Lexes (w ++ rest) (.name w :: ts) :=
  hw.free ▸ h.word hw.toIsWord hrest

/-- The text has no quote `q`, no line end and no backslash. -/
def Plain (q : UInt8) (w : Bytes) : Prop :=
  ∀ b ∈ w, b ≠ q ∧ Byte.isNewline b = false ∧ b ≠ byte '\\'

instance (q : UInt8) (w : Bytes) : Decidable (Plain q w) :=
  decidable_of_iff (w.all fun b => b != q && (!Byte.isNewline b && b != byte '\\') : Bool) (by simp [Plain])

theorem readQuoted_plain {q : UInt8} : ∀ {w : Bytes} (fuel line : Nat) (acc rest : Bytes), Plain q w →
    readQuoted q (fuel + w.length) line acc (w ++ rest) = readQuoted q fuel line (w.reverse ++ acc) rest
  | [], fuel, line, acc, rest, _ => rfl
  | b :: w, fuel, line, acc, rest, hw => by
    obtain ⟨hq, hnewline, hescape⟩ := hw b List.mem_cons_self
    rw [List.length_cons, ← Nat.add_assoc, List.cons_append, readQuoted, if_neg (by simpa using hq), hnewline,
      if_neg (by simp), if_neg (by simpa using hescape),
      readQuoted_plain fuel line (b :: acc) rest fun c hc => hw c (List.mem_cons_of_mem b hc)]
    simp

theorem readQuoted_close (q : UInt8) (fuel line : Nat) (acc rest : Bytes) :
    readQuoted q (fuel + 1) line acc (q :: rest) = .ok acc.reverse line rest := by
  rw [readQuoted, if_pos (beq_self_eq_true q)]

theorem next_quote (line : Nat) (r : Bytes) :
    next line (34 :: r) = match readQuoted 34 (r.length + 1) line [] r with
      | .ok v line rest => .token ⟨.str v, 34 :: v ++ [34], line⟩ rest
      | .error e => .error e :=
  rfl

theorem next_string (line : Nat) (hv : Plain 34 v) (rest : Bytes) :
    next line (34 :: (v ++ 34 :: rest)) = .token ⟨.str v, 34 :: v ++ [34], line⟩ rest := by
  have hread : readQuoted 34 ((v ++ 34 :: rest).length + 1) line [] (v ++ 34 :: rest) = .ok v line rest := by
    have hfuel : (v ++ 34 :: rest).length + 1 = rest.length + 1 + 1 + v.length := by
      rw [List.length_append, List.length_cons]
      omega
    rw [hfuel, readQuoted_plain _ line [] _ hv, readQuoted_close, List.append_nil, List.reverse_reverse]
  rw [next_quote, hread]

theorem Lexes.str (h : Lexes rest ts) (hv : Plain 34 v) : Lexes (34 :: (v ++ 34 :: rest)) (.str v :: ts) :=
  h.token (fun line => ⟨_, line, next_string line hv rest⟩) (by simp)

end Lexes

/-! ## The lines -/

/-- The line that copies the variable `x` to a field of the variable `env`. -/
def copyBytes (env x : Bytes) : Bytes :=
  env ++ 91 :: 34 :: (x ++ 34 :: 93 :: 32 :: 61 :: 32 :: x)

/-- Names with commas between them. -/
def listBytes : List Bytes → Bytes
  | [] => []
  | [w] => w
  | w :: w' :: names => w ++ 44 :: 32 :: listBytes (w' :: names)

/-- The line that returns variables. -/
def returnBytes (names : List Bytes) : Bytes :=
  bytes "return" ++ 32 :: listBytes names

/-- The lines that copy variables and return variables. -/
def lineBytes (env : Bytes) : List Bytes → List Bytes → Bytes
  | [], names => returnBytes names
  | x :: copies, names => copyBytes env x ++ 10 :: lineBytes env copies names

section Lines

variable {env x rest w : Bytes} {names copies : List Bytes} {ts : List Token}

theorem isWord_return : IsWord (bytes "return") where
  start := ⟨_, _, rfl, by decide⟩
  rest := List.all_eq_true.1 (by decide)

/-- No byte of a word is a quote, a line end or a backslash. -/
theorem nameRest_plain {b q : UInt8} (hb : Byte.isNameRest b = true) (hq : Byte.isNameRest q = false) :
    b ≠ q ∧ Byte.isNewline b = false ∧ b ≠ byte '\\' := by
  refine ⟨?_, Bool.eq_false_iff.2 fun hnewline => ?_, ?_⟩
  · rintro rfl
    rw [hb] at hq
    cases hq
  · rcases Bool.or_eq_true_iff.1 hnewline with h | h <;> rw [eq_of_beq h] at hb <;> cases hb
  · rintro rfl
    cases hb

theorem IsWord.plain (h : IsWord w) {q : UInt8} (hq : Byte.isNameRest q = false) : Plain q w :=
  fun b hb => nameRest_plain (h.rest b hb) hq

theorem Lexes.assign (h : Lexes (32 :: rest) ts) : Lexes (61 :: 32 :: rest) (.sym .assign :: ts) :=
  h.token (fun line => ⟨[], line, rfl⟩) (by simp)

theorem Lexes.rbracket (h : Lexes (32 :: rest) ts) : Lexes (93 :: 32 :: rest) (.sym .rbracket :: ts) :=
  h.token (fun line => ⟨[], line, rfl⟩) (by simp)

theorem Lexes.lbracket (h : Lexes (34 :: rest) ts) : Lexes (91 :: 34 :: rest) (.sym .lbracket :: ts) :=
  h.token (fun line => ⟨[], line, rfl⟩) (by simp)

theorem Lexes.comma (h : Lexes (32 :: rest) ts) : Lexes (44 :: 32 :: rest) (.sym .comma :: ts) :=
  h.token (fun line => ⟨[], line, rfl⟩) (by simp)

theorem lexes_copy (henv : IsName env) (hx : IsName x) (hrest : Ends rest) (h : Lexes rest ts) :
    Lexes (copyBytes env x ++ rest) (copyTokens env x ++ ts) := by
  have hassign : Lexes (32 :: 61 :: 32 :: (x ++ rest)) (.sym .assign :: .name x :: ts) :=
    (h.name hx hrest).space.assign.space
  have hplace : Lexes (91 :: 34 :: (x ++ 34 :: 93 :: 32 :: 61 :: 32 :: (x ++ rest)))
      (.sym .lbracket :: .str x :: .sym .rbracket :: .sym .assign :: .name x :: ts) :=
    (hassign.rbracket.str (hx.plain rfl)).lbracket
  have hline := hplace.name henv fun b hb => by cases hb; rfl
  simpa [copyBytes, copyTokens] using hline

theorem lexes_list : ∀ {names : List Bytes}, (∀ w ∈ names, IsName w) → names ≠ [] →
    Lexes (listBytes names) ((names.map Token.name).intersperse (.sym .comma) ++ [.eof])
  | [w], hnames, _ => by
    have hw := lexes_nil.name (hnames w List.mem_cons_self) (fun b hb => by cases hb)
    rw [List.append_nil] at hw
    exact hw
  | w :: w' :: names, hnames, _ => by
    have hmore := lexes_list (fun v hv => hnames v (List.mem_cons_of_mem w hv)) (List.cons_ne_nil w' names)
    exact hmore.space.comma.name (hnames w List.mem_cons_self) fun b hb => by cases hb; rfl

theorem lexes_return (hnames : ∀ w ∈ names, IsName w) (hne : names ≠ []) :
    Lexes (returnBytes names) (returnTokens names ++ [.eof]) :=
  (lexes_list hnames hne).space.word isWord_return fun b hb => by cases hb; rfl

theorem solid_append (h : IsWord w) (rest : Bytes) : Solid (w ++ rest) := by
  obtain ⟨c, r, rfl, hc⟩ := h.start
  exact ⟨c, r ++ rest, rfl, isSpace_of_isNameStart hc⟩

theorem solid_lines (henv : IsName env) (copies names : List Bytes) : Solid (lineBytes env copies names) := by
  cases copies with
  | nil => exact solid_append isWord_return _
  | cons x copies =>
    rw [lineBytes, copyBytes, List.append_assoc]
    exact solid_append henv.toIsWord _

/-- The lines have the tokens that they are meant to have. -/
theorem lexes_lines (henv : IsName env) (hnames : ∀ w ∈ names, IsName w) (hne : names ≠ []) :
    ∀ {copies : List Bytes}, (∀ x ∈ copies, IsName x) →
      Lexes (lineBytes env copies names) (copies.flatMap (copyTokens env) ++ (returnTokens names ++ [.eof]))
  | [], _ => lexes_return hnames hne
  | x :: copies, hcopies => by
    have hmore := lexes_lines henv hnames hne fun y hy => hcopies y (List.mem_cons_of_mem x hy)
    rw [List.flatMap_cons, List.append_assoc]
    exact lexes_copy henv (hcopies x List.mem_cons_self) (fun b hb => by cases hb; rfl)
      (hmore.newline (solid_lines henv copies names))

/-! ## Nothing left open ends in the lines -/

theorem closesNothing_append (hw : 93 ∉ w) (h : ClosesNothing rest) : ClosesNothing (w ++ rest) := by
  induction w with
  | nil => exact h
  | cons b w ih =>
    intro z hz level
    rcases List.suffix_cons_iff.1 hz with rfl | hz
    · have hb : b ≠ 93 := fun e => hw (e ▸ List.mem_cons_self)
      unfold afterClose?
      split
      · rename_i heq
        exact absurd (List.cons.inj heq).1 hb
      · rfl
    · exact ih (fun hc => hw (List.mem_cons_of_mem b hc)) z hz level

theorem ClosesNothing.bracket (h : ClosesNothing (32 :: rest)) : ClosesNothing (93 :: 32 :: rest) := by
  intro z hz level
  rcases List.suffix_cons_iff.1 hz with rfl | hz
  · rfl
  · exact h z hz level

theorem IsWord.no_bracket (h : IsWord w) : 93 ∉ w := by
  intro hb
  cases h.rest 93 hb

theorem unquotes_append {q : UInt8} (hw : Plain q w) (h : Unquotes q rest) : Unquotes q (w ++ rest) := by
  intro fuel line acc hfuel
  rw [List.length_append] at hfuel
  obtain ⟨n, rfl⟩ := Nat.exists_eq_add_of_le' (show w.length ≤ fuel by omega)
  rw [readQuoted_plain n line acc rest hw]
  exact h n line _ (by omega)

theorem unquotes_nil (q : UInt8) : Unquotes q [] := by
  intro fuel line acc _
  rw [readQuoted_nil]
  trivial

theorem readQuoted_newline {q : UInt8} (hq : q ≠ 10) (fuel line : Nat) (acc rest : Bytes) :
    readQuoted q (fuel + 1) line acc (10 :: rest) = .error (errorNear line "unfinished string" (q :: acc.reverse)) := by
  rw [readQuoted, if_neg (by simpa using hq.symm), if_pos (show Byte.isNewline 10 = true from rfl)]

theorem unquotes_newline {q : UInt8} (hq : q ≠ 10) (rest : Bytes) : Unquotes q (10 :: rest) := by
  intro fuel line acc hfuel
  obtain ⟨fuel, rfl⟩ := Nat.exists_eq_add_of_le' (show 1 ≤ fuel by omega)
  rw [readQuoted_newline hq]
  trivial

/-- A string that is closed fails if what follows it does. -/
theorem unquotes_close {q : UInt8} (h : ∀ line, (lexed line rest).2 ≠ none) : Unquotes q (q :: rest) := by
  intro fuel line acc hfuel
  obtain ⟨fuel, rfl⟩ := Nat.exists_eq_add_of_le' (show 1 ≤ fuel by omega)
  rw [readQuoted_close]
  exact h

/-- A string that is not closed on its line. -/
theorem lexed_open_string (hw : Plain 34 w) (line : Nat) (rest : Bytes) :
    (lexed line (34 :: (w ++ 10 :: rest))).2 ≠ none := by
  have hread : readQuoted 34 ((w ++ 10 :: rest).length + 1) line [] (w ++ 10 :: rest) =
      .error (errorNear line "unfinished string" (34 :: (w.reverse ++ []).reverse)) := by
    have hfuel : (w ++ 10 :: rest).length + 1 = rest.length + 1 + 1 + w.length := by
      rw [List.length_append, List.length_cons]
      omega
    rw [hfuel, readQuoted_plain _ line [] _ hw, readQuoted_newline (by decide)]
  have hnext : next line (34 :: (w ++ 10 :: rest)) =
      .error (errorNear line "unfinished string" (34 :: (w.reverse ++ []).reverse)) := by
    rw [next_quote, hread]
  rw [lexed_error hnext]
  simp

theorem lexed_word_error (h : ∀ line, (lexed line rest).2 ≠ none) (hw : IsWord w) (hrest : Ends rest) (line : Nat) :
    (lexed line (w ++ rest)).2 ≠ none := by
  rw [hw.lexed hrest]
  exact h line

theorem mem_listBytes {b : UInt8} : ∀ {names : List Bytes}, b ∈ listBytes names →
    (∃ w ∈ names, b ∈ w) ∨ b = 44 ∨ b = 32
  | [w], h => .inl ⟨w, List.mem_cons_self, h⟩
  | w :: w' :: names, h => by
    rw [listBytes, List.mem_append, List.mem_cons, List.mem_cons] at h
    rcases h with h | h | h | h
    · exact .inl ⟨w, List.mem_cons_self, h⟩
    · exact .inr (.inl h)
    · exact .inr (.inr h)
    · rcases mem_listBytes h with ⟨v, hv, hb⟩ | h
      · exact .inl ⟨v, List.mem_cons_of_mem w hv, hb⟩
      · exact .inr h

/-- The bytes of the line that returns variables. -/
theorem mem_returnBytes (hnames : ∀ w ∈ names, IsName w) {b : UInt8} (hb : b ∈ returnBytes names) :
    Byte.isNameRest b = true ∨ b = 44 ∨ b = 32 := by
  rw [returnBytes, List.mem_append, List.mem_cons] at hb
  rcases hb with hb | hb | hb
  · exact .inl (isWord_return.rest b hb)
  · exact .inr (.inr hb)
  · rcases mem_listBytes hb with ⟨w, hw, hb⟩ | hb
    · exact .inl ((hnames w hw).rest b hb)
    · exact .inr hb

theorem plain_return (hnames : ∀ w ∈ names, IsName w) {q : UInt8} (hq : q = 34 ∨ q = 39) :
    Plain q (returnBytes names) := by
  intro b hb
  rcases hq with rfl | rfl
  · rcases mem_returnBytes hnames hb with hb | rfl | rfl
    · exact nameRest_plain hb rfl
    · decide
    · decide
  · rcases mem_returnBytes hnames hb with hb | rfl | rfl
    · exact nameRest_plain hb rfl
    · decide
    · decide

/-- The bytes of the line that copies a variable. -/
theorem mem_copyBytes (henv : IsName env) (hx : IsName x) {b : UInt8} (hb : b ∈ copyBytes env x) :
    Byte.isNameRest b = true ∨ b ∈ [91, 34, 93, 32, 61] := by
  simp only [copyBytes, List.mem_append, List.mem_cons] at hb
  rcases hb with hb | rfl | rfl | hb | rfl | rfl | rfl | rfl | rfl | hb
  · exact .inl (henv.rest b hb)
  · exact .inr (by decide)
  · exact .inr (by decide)
  · exact .inl (hx.rest b hb)
  · exact .inr (by decide)
  · exact .inr (by decide)
  · exact .inr (by decide)
  · exact .inr (by decide)
  · exact .inr (by decide)
  · exact .inl (hx.rest b hb)

/-- A string in double quotes is closed before the variable and another one is begun behind it. -/
theorem unquotes_copy_double (henv : IsName env) (hx : IsName x) (rest : Bytes) :
    Unquotes 34 (copyBytes env x ++ 10 :: rest) := by
  have hplace : Plain 34 (env ++ [91]) := by
    intro b hb
    rcases List.mem_append.1 hb with hb | hb
    · exact henv.plain rfl b hb
    · obtain rfl := List.mem_singleton.1 hb
      decide
  have hassign : Plain 34 (93 :: 32 :: 61 :: 32 :: x) := by
    intro b hb
    simp only [List.mem_cons] at hb
    rcases hb with rfl | rfl | rfl | rfl | hb
    · decide
    · decide
    · decide
    · decide
    · exact hx.plain rfl b hb
  have hopen : ∀ line, (lexed line (x ++ 34 :: ((93 :: 32 :: 61 :: 32 :: x) ++ 10 :: rest))).2 ≠ none :=
    lexed_word_error (fun line => lexed_open_string hassign line rest) hx.toIsWord fun b hb => by cases hb; rfl
  have hline := unquotes_append hplace (unquotes_close hopen)
  simpa [copyBytes] using hline

theorem unquotes_copy_single (henv : IsName env) (hx : IsName x) (rest : Bytes) :
    Unquotes 39 (copyBytes env x ++ 10 :: rest) := by
  have hsymbols : Plain 39 [91, 34, 93, 32, 61] := by decide
  refine unquotes_append (fun b hb => ?_) (unquotes_newline (by decide) rest)
  rcases mem_copyBytes henv hx hb with hb | hb
  · exact nameRest_plain hb rfl
  · exact hsymbols b hb

theorem closesNothing_copy (henv : IsName env) (hx : IsName x) (h : ClosesNothing rest) :
    ClosesNothing (copyBytes env x ++ 10 :: rest) := by
  have hx' : ClosesNothing (x ++ 10 :: rest) := closesNothing_append hx.no_bracket h.newline
  have hassign : ClosesNothing ([32, 61, 32] ++ (x ++ 10 :: rest)) := closesNothing_append (by decide) hx'
  have hkey : ClosesNothing ([34] ++ 93 :: ([32, 61, 32] ++ (x ++ 10 :: rest))) :=
    closesNothing_append (by decide) hassign.bracket
  have hplace := closesNothing_append (w := [91, 34]) (by decide) (closesNothing_append hx.no_bracket hkey)
  have hline := closesNothing_append henv.no_bracket hplace
  simpa [copyBytes] using hline

theorem detached_return (hnames : ∀ w ∈ names, IsName w) : Detached (returnBytes names) where
  solid := solid_append isWord_return _
  closesNothing := by
    have hbytes : 93 ∉ returnBytes names := by
      intro hb
      rcases mem_returnBytes hnames hb with hb | hb | hb <;> cases hb
    rw [← List.append_nil (returnBytes names)]
    exact closesNothing_append hbytes closesNothing_nil
  unquotes := by
    intro q hq
    rw [← List.append_nil (returnBytes names)]
    exact unquotes_append (plain_return hnames (by simpa [isQuote, byte] using hq)) (unquotes_nil q)

/-- Strings and comments that are left open before the lines do not end well in them. -/
theorem detached_lines (henv : IsName env) (hnames : ∀ w ∈ names, IsName w) :
    ∀ {copies : List Bytes}, (∀ x ∈ copies, IsName x) → Detached (lineBytes env copies names)
  | [], _ => detached_return hnames
  | x :: copies, hcopies => {
      solid := solid_lines henv (x :: copies) names
      closesNothing :=
        have hmore := detached_lines henv hnames fun y hy => hcopies y (List.mem_cons_of_mem x hy)
        closesNothing_copy henv (hcopies x List.mem_cons_self) hmore.closesNothing
      unquotes := by
        intro q hq
        have hx := hcopies x List.mem_cons_self
        rcases Bool.or_eq_true_iff.1 hq with hq | hq
        · rw [eq_of_beq hq]
          exact unquotes_copy_double henv hx _
        · rw [eq_of_beq hq]
          exact unquotes_copy_single henv hx _ }

/-! ## A block without contents -/

theorem isWord_do : IsWord (bytes "do") where
  start := ⟨_, _, rfl, by decide⟩
  rest := List.all_eq_true.1 (by decide)

theorem isWord_end : IsWord (bytes "end") where
  start := ⟨_, _, rfl, by decide⟩
  rest := List.all_eq_true.1 (by decide)

theorem lexes_block : Lexes (bytes "do end") [.word .kDo, .word .kEnd, .eof] :=
  (lexes_nil.word isWord_end (fun b hb => by cases hb)).space.word isWord_do fun b hb => by cases hb; rfl

theorem detached_block : Detached (bytes "do end") where
  solid := ⟨100, bytes "o end", rfl, rfl⟩
  closesNothing := closesNothing_append (w := bytes "do end") (by decide) closesNothing_nil
  unquotes := by
    intro q hq
    have hplain : Plain q (bytes "do end") := by
      rcases Bool.or_eq_true_iff.1 hq with hq | hq
      · rw [eq_of_beq hq]
        decide
      · rw [eq_of_beq hq]
        decide
    exact unquotes_append (w := bytes "do end") hplain (unquotes_nil q)

end Lines

end Scratchpad.Lua.Lexer
