import Scratchpad.Proofs.Lua.Parser.Declared
import Scratchpad.Proofs.Snippet.Grammar

/-!
# Snippets that are one declaration

The shape of a snippet is judged by its text, its meaning by its tokens. If a snippet of any shape is one declaration,
then the names of its shape are the declared ones. Main statement: the snippet with the lines behind it is the
declaration with lines that copy and return its variables (`parse_lasting`).
-/

namespace Scratchpad.Snippet

open Text Lua Lexer
open Lua.Parser (headToken Stray Listed Misnamed Opens IsDeclaration Yields)

variable {code : String} {t cs u w name : List Char} {names : List (List Char)} {y : Bytes}

/-! ## The shapes -/

/-- The names of a shape and the form of its text. -/
theorem ofText_cases (h : Shape.ofText t ≠ .other) :
    (∃ name, localFunction? t = some name ∧ (Shape.ofText t).copies = [name] ∧ (Shape.ofText t).returned = [name]) ∨
      (∃ names, (IsLocalValue t names ∨ IsLocalNames t names) ∧ (Shape.ofText t).copies = names ∧
        (Shape.ofText t).returned = names) ∨
      ∃ names, IsAssignment t names := by
  revert h
  unfold Shape.ofText
  split
  · rename_i name hfunction
    exact fun _ => .inl ⟨name, hfunction, rfl, rfl⟩
  · split
    · rename_i names hvalue
      exact fun _ => .inr (.inl ⟨names, .inl (localValue_iff.1 hvalue), rfl, rfl⟩)
    · split
      · rename_i names hnames
        exact fun _ => .inr (.inl ⟨names, .inr (localNames_iff.1 hnames), rfl, rfl⟩)
      · split
        · rename_i names hassign
          exact fun _ => .inr (.inr ⟨names, assigned?_iff.1 hassign⟩)
        · exact fun h => absurd rfl h

/-! ## The tokens of a list of names -/

theorem ends_parts (hcs : ∀ c ∈ cs.head?, isDivider c = true) (hy : Ends y) : Ends (Utf8.encode cs ++ y) := by
  cases cs with
  | nil => exact hy
  | cons c cs =>
    refine ends_encode (Bool.eq_false_iff.2 fun hc => ?_) cs y
    cases (not_isDivider hc).symm.trans (hcs c rfl)

/-- The tokens of a list of names, from white space before it to what stands behind it. -/
theorem lexed_listed (h : Parts cs names) (hnames : ∀ n ∈ names, isIdentifier (String.ofList n) = true)
    (hspace : ∀ b ∈ y.head?, Byte.isSpace b = false) (hends : Ends y) (hy : ∀ line, Listed (lexed line y).1 []) :
    ∀ {u : List Char}, IsSpaces u → ∀ line,
      Listed (lexed line (Utf8.encode u ++ (Utf8.encode cs ++ y))).1 (names.map Utf8.encode) := by
  induction h with
  | nil =>
    intro u hu line
    rcases lexed_gap hspace hu line with hstray | ⟨last, hlast⟩
    · exact .stray hstray
    · rw [show Utf8.encode [] = [] from rfl, List.nil_append, hlast]
      exact hy last
  | @divider c cs names hc _ ih =>
    intro u hu line
    rcases Bool.or_eq_true_iff.1 hc with hcomma | hc
    · obtain rfl : c = ',' := eq_of_beq hcomma
      have hencode : Utf8.encode (',' :: cs) = 44 :: Utf8.encode cs := encode_cons ',' cs
      rw [hencode, List.cons_append]
      rcases lexed_gap (y := 44 :: (Utf8.encode cs ++ y)) (fun b hb => by cases hb; rfl) hu line with
        hstray | ⟨last, hlast⟩
      · exact .stray hstray
      · have hnext : next last (44 :: (Utf8.encode cs ++ y)) = .token ⟨.sym .comma, [], last⟩ (Utf8.encode cs ++ y) := rfl
        rw [hlast, lexed_token hnext (by simp)]
        exact .comma rfl (ih hnames (u := []) (fun c hc => (List.not_mem_nil hc).elim) last)
    · -- a space joins the white space before it
      have hu' : IsSpaces (u ++ [c]) := fun d hd => by
        rcases List.mem_append.1 hd with hd | hd
        · exact hu d hd
        · rw [List.mem_singleton.1 hd]
          exact hc
      have hmore := ih hnames hu' line
      rwa [encode_append, List.append_assoc, ← List.append_assoc (Utf8.encode [c]), ← encode_append,
        List.singleton_append] at hmore
  | @part name cs names _ _ hend _ ih =>
    intro u hu line
    have hname : IsName (Utf8.encode name) := isName_of_isIdentifier (hnames name List.mem_cons_self)
    rw [encode_append, List.append_assoc]
    rcases lexed_gap (solid_append hname.toIsWord (Utf8.encode cs ++ y)).head hu line with hstray | ⟨last, hlast⟩
    · exact .stray hstray
    · rw [hlast, hname.toIsWord.lexed (ends_parts hend hends)]
      exact .name hname.free (ih (fun n hn => hnames n (List.mem_cons_of_mem name hn)) (u := [])
        (fun c hc => (List.not_mem_nil hc).elim) last)

/-! ## Equals signs -/

theorem encodeChar_ne_equals {c : Char} (h : c ≠ '=') (r : Bytes) : (Utf8.encodeChar c ++ r).head? ≠ some 61 := by
  rcases Nat.lt_or_ge c.toNat 128 with hlt | hle
  · rw [encodeChar_ascii hlt]
    intro hhead
    have hbyte : byte c = 61 := Option.some.inj hhead
    have hnat : c.toNat = '='.toNat := by rw [← toNat_byte hlt, hbyte]; rfl
    exact h (Char.toNat_inj.1 hnat)
  · obtain ⟨b, r', hr', hlead⟩ := encodeChar_lead hle
    rw [hr']
    intro hhead
    obtain rfl : b = 61 := Option.some.inj hhead
    exact absurd hlead (by decide)

theorem next_assign {r : Bytes} (h : r.head? ≠ some 61) (line : Nat) :
    next line (61 :: r) = .token ⟨.sym .assign, [], line⟩ r := by
  have hsymbol : symbol? (61 :: r) = some (.assign, 1) :=
    if_neg (c := (r.head? == some 61) = true) (by simpa using h)
  have hdigit : (Byte.isDigit 61 || 61 == byte '.' && r.head?.any Byte.isDigit) = false := rfl
  have hcomment : (61 == byte '-' && r.head? == some (byte '-')) = false := rfl
  rw [next, if_neg (by decide), if_neg (by decide), if_neg (by decide), hdigit, if_neg Bool.false_ne_true,
    if_neg (by decide), hcomment, if_neg Bool.false_ne_true, if_neg (by decide), hsymbol]
  rfl

/-- The tokens from a list of names on, if a value stands behind it. -/
theorem listed_value {value : List Char} (h : IsValue ('=' :: value)) (x : List Char) (line : Nat) :
    Listed (lexed line (Utf8.encode ('=' :: value ++ x))).1 [] := by
  obtain ⟨value', hvalue', hne, hhead⟩ := h
  obtain rfl := (List.cons.inj hvalue').2
  obtain ⟨c, v, rfl⟩ := List.exists_cons_of_ne_nil hne
  have hc : c ≠ '=' := fun hc => hhead [] v (fun d hd => (List.not_mem_nil hd).elim) (by rw [hc]; rfl)
  have hencode : Utf8.encode ('=' :: c :: v ++ x) = 61 :: (Utf8.encodeChar c ++ Utf8.encode (v ++ x)) := by
    rw [List.cons_append, List.cons_append, encode_cons, encode_cons]
    rfl
  rw [hencode, lexed_token (next_assign (encodeChar_ne_equals hc _) line) (by simp)]
  exact .last (.inl rfl)

/-! ## The tokens of a shape -/

theorem isWord_local : Lexer.IsWord (Utf8.encode "local".toList) :=
  isWord_encode (by decide)

theorem isWord_function : Lexer.IsWord (Utf8.encode "function".toList) :=
  isWord_encode (by decide)

/-- The tokens of a list of names behind `local`. -/
theorem opens_list (hu : IsSpaces u) (hw : Gap w) (h : Parts cs names)
    (hnames : ∀ n ∈ names, isIdentifier (String.ofList n) = true) (hspace : ∀ b ∈ y.head?, Byte.isSpace b = false)
    (hends : Ends y) (hy : ∀ line, Listed (lexed line y).1 []) (line : Nat) :
    let ts := (lexed line (Utf8.encode u ++ (Utf8.encode "local".toList ++ (Utf8.encode w ++ (Utf8.encode cs ++ y))))).1
    Stray ts ∨ Opens (names.map Utf8.encode) ts := by
  intro ts
  rcases lexed_gap (solid_append isWord_local _).head hu line with hstray | ⟨last, hlast⟩
  · exact .inl hstray
  · have hts : ts = ⟨.word .kLocal, Utf8.encode "local".toList, last⟩ ::
        (lexed last (Utf8.encode w ++ (Utf8.encode cs ++ y))).1 := by
      dsimp only [ts]
      rw [hlast, isWord_local.lexed (ends_gap hw.nonempty hw.spaces _)]
      rfl
    exact .inr ⟨_, _, hts, rfl, .inl (lexed_listed h hnames hspace hends hy hw.spaces last)⟩

/-- The tokens of a local function whose name is no reserved word. -/
theorem opens_function {w₁ w₂ : List Char} (hu : IsSpaces u) (hw₁ : Gap w₁) (hw₂ : Gap w₂)
    (hname : isIdentifier (String.ofList name) = true) (hends : Ends y) (line : Nat) :
    let ts := (lexed line (Utf8.encode u ++ (Utf8.encode "local".toList ++ (Utf8.encode w₁ ++
      (Utf8.encode "function".toList ++ (Utf8.encode w₂ ++ (Utf8.encode name ++ y))))))).1
    Stray ts ∨ Opens [Utf8.encode name] ts := by
  intro ts
  have hname : IsName (Utf8.encode name) := isName_of_isIdentifier hname
  rcases lexed_gap (solid_append isWord_local _).head hu line with hstray | ⟨last, hlast⟩
  · exact .inl hstray
  · have hts : ts = ⟨.word .kLocal, Utf8.encode "local".toList, last⟩ :: (lexed last (Utf8.encode w₁ ++
        (Utf8.encode "function".toList ++ (Utf8.encode w₂ ++ (Utf8.encode name ++ y))))).1 := by
      dsimp only [ts]
      rw [hlast, isWord_local.lexed (ends_gap hw₁.nonempty hw₁.spaces _)]
      rfl
    refine .inr ⟨_, _, hts, rfl, ?_⟩
    rcases lexed_gap (solid_append isWord_function _).head hw₁.spaces last with hstray | ⟨last', hlast'⟩
    · exact .inl (.stray hstray)
    · rw [hlast', isWord_function.lexed (ends_gap hw₂.nonempty hw₂.spaces _)]
      refine .inr ⟨_, rfl, _, _, rfl, rfl, ?_⟩
      rcases lexed_gap (solid_append hname.toIsWord _).head hw₂.spaces last' with hstray | ⟨last'', hlast''⟩
      · exact .inl hstray
      · rw [hlast'', hname.toIsWord.lexed hends]
        exact .inr hname.free

/-- The tokens of a text that begins with a list of names. -/
theorem name_lexed (hu : IsSpaces u) (h : IsNames cs names) (hy : Ends y) (line : Nat) :
    let ts := (lexed line (Utf8.encode u ++ (Utf8.encode cs ++ y))).1
    Stray ts ∨ ∃ w, headToken ts = .name w := by
  intro ts
  obtain ⟨c, r, hcs, hc⟩ := h.start
  have hidentifiers := h.identifiers
  generalize hparts : cs = list at h
  cases h.parts with
  | nil =>
    rw [hcs] at hparts
    cases hparts
  | divider hdivider =>
    rw [hcs] at hparts
    cases hparts
    cases (not_isDivider (isNameRest_of_isNameStart hc)).symm.trans hdivider
  | @part name rest _ _ _ hend =>
    have hname : IsName (Utf8.encode name) := isName_of_isIdentifier (hidentifiers name List.mem_cons_self)
    dsimp only [ts]
    rw [hparts, encode_append, List.append_assoc]
    rcases lexed_gap (solid_append hname.toIsWord (Utf8.encode rest ++ y)).head hu line with hstray | ⟨last, hlast⟩
    · exact .inl hstray
    · rw [hlast, hname.toIsWord.lexed (ends_parts hend hy)]
      exact .inr ⟨_, hname.free⟩

/-- The tokens of a snippet that is a local function by its form. -/
theorem opens_localFunction (h : localFunction? (strip code.toList) = some name)
    (hname : isIdentifier (String.ofList name) = true) :
    Stray (lexed 1 (bytes code)).1 ∨ Opens [Utf8.encode name] (lexed 1 (bytes code)).1 := by
  obtain ⟨u, u', hu, -, hcode⟩ := strip_eq code.toList
  obtain ⟨-, w₁, w₂, w₃, r, hw₁, hw₂, hw₃, ht⟩ := localFunction?_eq_some h
  have hbytes : bytes code = Utf8.encode u ++ (Utf8.encode "local".toList ++ (Utf8.encode w₁ ++
      (Utf8.encode "function".toList ++ (Utf8.encode w₂ ++ (Utf8.encode name ++
        (Utf8.encode (w₃ ++ '(' :: (r ++ u')) ++ [])))))) := by
    rw [bytes, Utf8.ofString, hcode, ht]
    simp only [encode_append, encode_cons, List.append_assoc, List.cons_append, List.append_nil]
  rw [hbytes]
  exact opens_function hu hw₁ hw₂ hname (ends_spaces (c := '(') hw₃ (by decide) (r ++ u') []) 1

/-- The tokens of a snippet that gives local variables a value by its form. -/
theorem opens_localValue (h : IsLocalValue (strip code.toList) names) :
    Stray (lexed 1 (bytes code)).1 ∨ Opens (names.map Utf8.encode) (lexed 1 (bytes code)).1 := by
  obtain ⟨u, u', hu, -, hcode⟩ := strip_eq code.toList
  obtain ⟨w, t', hw, ⟨list, w₂, r, hnames, hw₂, hvalue, rfl⟩, ht⟩ := h
  obtain ⟨value, rfl, -⟩ := id hvalue
  have hbytes : bytes code = Utf8.encode u ++ (Utf8.encode "local".toList ++ (Utf8.encode w ++
      (Utf8.encode (list ++ w₂) ++ Utf8.encode ('=' :: value ++ u')))) := by
    rw [bytes, Utf8.ofString, hcode, ht]
    simp only [encode_append, encode_cons, List.append_assoc, List.cons_append]
  rw [hbytes]
  refine opens_list hu hw (hnames.parts.append_spaces hw₂) hnames.identifiers ?_ ?_ (listed_value hvalue u') 1
  · rintro b hb
    cases hb
    rfl
  · rintro b hb
    cases hb
    rfl

/-- The tokens of a snippet that lists local variables by its form. -/
theorem opens_localNames (h : IsLocalNames (strip code.toList) names) :
    Stray (lexed 1 (bytes code)).1 ∨ Opens (names.map Utf8.encode) (lexed 1 (bytes code)).1 := by
  have hnil : ∀ {b : UInt8}, b ∉ ([] : Bytes).head? := fun hb => by cases hb
  obtain ⟨u, u', hu, hu', hcode⟩ := strip_eq code.toList
  obtain ⟨w, list, hw, hnames, ht⟩ := h
  have hbytes : bytes code = Utf8.encode u ++ (Utf8.encode "local".toList ++ (Utf8.encode w ++
      (Utf8.encode (list ++ u') ++ []))) := by
    rw [bytes, Utf8.ofString, hcode, ht]
    simp only [encode_append, List.append_assoc, List.append_nil]
  rw [hbytes]
  exact opens_list hu hw (hnames.parts.append_spaces hu') hnames.identifiers (fun b hb => (hnil hb).elim)
    (fun b hb => (hnil hb).elim) (fun line => .last (.inr rfl)) 1

/-- The tokens of a snippet that is an assignment by its form. -/
theorem name_assignment (h : IsAssignment (strip code.toList) names) :
    Stray (lexed 1 (bytes code)).1 ∨ ∃ w, headToken (lexed 1 (bytes code)).1 = .name w := by
  obtain ⟨u, u', hu, -, hcode⟩ := strip_eq code.toList
  obtain ⟨list, w, r, hnames, hw, ⟨value, rfl, -⟩, ht⟩ := h
  have hbytes : bytes code = Utf8.encode u ++ (Utf8.encode list ++
      (Utf8.encode (w ++ '=' :: (value ++ u')) ++ [])) := by
    rw [bytes, Utf8.ofString, hcode, ht]
    simp only [encode_append, encode_cons, List.append_assoc, List.cons_append, List.append_nil]
  rw [hbytes]
  exact name_lexed hu hnames (ends_spaces (c := '=') hw (by decide) (value ++ u') []) 1

/-- The tokens of a snippet that has a shape. -/
theorem opens_lexed (h : shape code ≠ .other) :
    let ts := (lexed 1 (bytes code)).1
    Misnamed ts ∨ (∃ w, headToken ts = .name w) ∨
      Opens ((shape code).copies.map Utf8.encode) ts ∧ (shape code).returned = (shape code).copies := by
  intro ts
  have hdeclared : ∀ {names}, (shape code).copies = names → (shape code).returned = names →
      Stray ts ∨ Opens (names.map Utf8.encode) ts → Misnamed ts ∨ (∃ w, headToken ts = .name w) ∨
        Opens ((shape code).copies.map Utf8.encode) ts ∧ (shape code).returned = (shape code).copies := by
    rintro names hcopies hreturned (hstray | hopens)
    · exact .inl (.inl hstray)
    · exact .inr (.inr ⟨hcopies ▸ hopens, hreturned.trans hcopies.symm⟩)
  rcases ofText_cases h with ⟨name, hfunction, hcopies, hreturned⟩ | ⟨names, hlocal, hcopies, hreturned⟩ |
    ⟨names, hassign⟩
  · rcases hname : isIdentifier (String.ofList name) with _ | _
    · have hmisnamed := misnamed_lexed hfunction hname []
      rw [List.append_nil] at hmisnamed
      exact .inl hmisnamed
    · exact hdeclared hcopies hreturned (opens_localFunction hfunction hname)
  · exact hdeclared hcopies hreturned (hlocal.elim opens_localValue opens_localNames)
  · rcases name_assignment hassign with hstray | hname
    · exact .inl (.inl hstray)
    · exact .inr (.inl hname)

/-! ## The lines behind a declaration -/

theorem isName_env : IsName (bytes "_ENV") :=
  isName_of_isIdentifier (show isIdentifier (String.ofList "_ENV".toList) = true by decide)

section Programs

variable {source : Bytes} {f : Func} {names : List Bytes} {values : List Expr}

/-- The names of a snippet that is a program are no reserved words. -/
theorem isName_returned (hshape : shape code ≠ .other)
    (h : Parser.Completes (Parser.entry source (lexed 1 (bytes code)).1)) :
    (shape code).returned.map Utf8.encode ≠ [] ∧ ∀ w ∈ (shape code).returned.map Utf8.encode, IsName w := by
  rcases returned_cases hshape with ⟨hne, hidentifiers⟩ | ⟨name, hname, hres⟩
  · refine ⟨fun hnil => hne (List.map_eq_nil_iff.1 hnil), fun w hw => ?_⟩
    obtain ⟨n, hn, rfl⟩ := List.mem_map.1 hw
    exact isName_of_isIdentifier (hidentifiers n hn)
  · have hmisnamed := misnamed_lexed hname hres []
    rw [List.append_nil] at hmisnamed
    exact absurd h (Parser.not_completes_misnamed hmisnamed)

/-- A snippet that is one declaration, with its lines, is the declaration with the lines that copy and return its
variables. -/
theorem parse_lasting (hshape : shape code ≠ .other) (hparse : parse source (bytes code) = .ok f)
    (hdecl : IsDeclaration (lex (bytes code)).1 f.body names values) :
    (∀ w ∈ names, IsName w) ∧ ∃ d lines, Parser.Declares d names values ∧
      Parser.IsLines (Parser.declaredScopes names) (bytes "_ENV") names names lines ∧
        parse source (bytes (lasting "_ENV" code)) = .ok (.mk 0 true (d :: lines) 0 source) := by
  obtain ⟨hlex, body, hbody, rfl⟩ := (Parser.parse_eq_ok_iff source _ f).1 hparse
  rw [lex_eq] at hlex hbody hdecl
  have hcompletes : Parser.Completes (Parser.entry source (lexed 1 (bytes code)).1) := Parser.completes_iff.2 ⟨body, hbody⟩
  rcases opens_lexed hshape with hmisnamed | ⟨w, hw⟩ | ⟨hopens, hreturned⟩
  · exact absurd hcompletes (Parser.not_completes_misnamed hmisnamed)
  · have hplace := hdecl.not_place hbody
    rw [hw] at hplace
    cases hplace
  rcases lexed_cases 1 (bytes code) with ⟨T, e, hT, he, heof⟩ | ⟨T, e, hT, -⟩
  · rw [hT] at hbody hdecl hopens
    obtain ⟨hcopies, d, hd, hbefore⟩ := hdecl.before (E := [e]) he heof hbody hopens
    obtain ⟨hne, hnames⟩ := isName_returned hshape hcompletes
    have hreturned : (shape code).returned.map Utf8.encode = names := by rw [hreturned, hcopies]
    rw [hreturned] at hne hnames
    obtain ⟨last, happend⟩ := lexed_append (detached_lines isName_env hnames hnames) 1 (bytes code) hlex
    obtain ⟨A, hA, htokens⟩ := lexes_lines isName_env hnames hne hnames last
    rw [hT, hA, List.dropLast_concat] at happend
    obtain ⟨s, hs, htop, hfuncs, hlines⟩ := hbefore A (Parser.sequel_lines hne htokens).toBorder.calm.1
    obtain ⟨lines, hyields, hisLines⟩ := Parser.yields_lines hne htokens hs htop (by rw [hfuncs]; rfl)
    rw [hfuncs] at hisLines
    refine ⟨hnames, d, lines, hd, hisLines, (Parser.parse_eq_ok_iff source _ _).2 ?_⟩
    rw [bytes_lasting "_ENV" hshape, hreturned, hcopies, lex_eq, happend]
    exact ⟨rfl, _, hlines lines hyields, rfl⟩
  · rw [hT] at hlex
    cases hlex

end Programs

end Scratchpad.Snippet
