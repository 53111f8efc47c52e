import Scratchpad.Proofs.Lua.Name
import Scratchpad.Snippet

/-!
# The lines behind a snippet

What `lasting` puts behind a snippet are lines that copy variables and return them (`bytes_lasting`). Their names are
identifiers, but for the name of a local function, which may be a reserved word (`returned_cases`).
-/

namespace Scratchpad.Snippet

open Text Lua Lexer

variable {cs t r : List Char} {names : List (List Char)} {name : List Char}

/-! ## The names of a shape -/

/-- The names that are copied into the environment. -/
def Shape.copies : Shape → List (List Char)
  | localFunction name => [name]
  | localValue names => names
  | localNames names => names
  | assignment _ => []
  | other => []

/-- The names that are returned. -/
def Shape.returned : Shape → List (List Char)
  | localFunction name => [name]
  | localValue names => names
  | localNames names => names
  | assignment names => names
  | other => []

theorem appendix_eq {s : Shape} (h : s ≠ .other) (env : String) :
    s.appendix env = s.copies.map (copyLine env) ++ [returnLine s.returned] := by
  cases s with
  | other => exact absurd rfl h
  | _ => rfl

theorem mem_returned_of_mem_copies {s : Shape} (h : name ∈ s.copies) : name ∈ s.returned := by
  cases s with
  | assignment names => cases h
  | _ => exact h

theorem splitNames?_eq_some (h : splitNames? cs = some names) :
    names ≠ [] ∧ ∀ n ∈ names, isIdentifier (String.ofList n) = true := by
  simp only [splitNames?] at h
  split_ifs at h with hempty hall
  obtain rfl := Option.some.inj h
  exact ⟨by simpa using hempty, List.all_eq_true.1 hall⟩

theorem assigned?_eq_some (h : assigned? t = some names) : ∃ list, splitNames? list = some names := by
  obtain ⟨⟨list, rest⟩, -, h⟩ := Option.bind_eq_some_iff.1 h
  dsimp only at h
  split at h
  · obtain ⟨_, -, h⟩ := Option.bind_eq_some_iff.1 h
    obtain ⟨_, -, h⟩ := Option.bind_eq_some_iff.1 h
    exact ⟨list, h⟩
  · cases h

theorem listed?_eq_some (h : listed? t = some names) : ∃ list, splitNames? list = some names := by
  obtain ⟨⟨list, rest⟩, -, h⟩ := Option.bind_eq_some_iff.1 h
  obtain ⟨_, -, h⟩ := Option.bind_eq_some_iff.1 h
  exact ⟨list, h⟩

/-- The names of a shape are identifiers, unless it is a local function whose name is a reserved word. -/
theorem returned_cases (h : Shape.ofText t ≠ .other) :
    ((Shape.ofText t).returned ≠ [] ∧ ∀ n ∈ (Shape.ofText t).returned, isIdentifier (String.ofList n) = true) ∨
      ∃ name, localFunction? t = some name ∧ isIdentifier (String.ofList name) = false := by
  rcases hfunction : localFunction? t with _ | name
  · have hlocal : ∀ {f : List Char → Option (List (List Char))} {names},
        (afterWord? "local" t).bind f = some names → ∃ t', f t' = some names := by
      intro f names hf
      obtain ⟨t', -, ht'⟩ := Option.bind_eq_some_iff.1 hf
      exact ⟨t', ht'⟩
    left
    revert h
    unfold Shape.ofText
    rw [hfunction]
    dsimp only
    split
    · rename_i names hvalue
      intro _
      obtain ⟨t', ht'⟩ := hlocal hvalue
      exact splitNames?_eq_some (assigned?_eq_some ht').choose_spec
    · split
      · rename_i names hnames
        intro _
        obtain ⟨t', ht'⟩ := hlocal hnames
        exact splitNames?_eq_some (listed?_eq_some ht').choose_spec
      · split
        · rename_i names hassign
          intro _
          exact splitNames?_eq_some (assigned?_eq_some hassign).choose_spec
        · exact fun h => absurd rfl h
  · rcases hname : isIdentifier (String.ofList name) with _ | _
    · exact .inr ⟨name, rfl, hname⟩
    · left
      rw [Shape.ofText, hfunction]
      refine ⟨List.cons_ne_nil name [], fun n hn => ?_⟩
      rw [List.mem_singleton.1 hn]
      exact hname

/-! ## The lines as bytes -/

theorem bytes_joinLines_cons (s t : String) (ss : List String) :
    bytes (joinLines (s :: t :: ss)) = bytes s ++ 10 :: bytes (joinLines (t :: ss)) := by
  rw [joinLines, joinLines, bytes_ofList, bytes_ofList, List.map_cons, List.map_cons, joinWithChar, encode_append,
    encode_cons]
  rfl

theorem bytes_joinLines_single (s : String) : bytes (joinLines [s]) = bytes s := by
  rw [joinLines, bytes_ofList]
  rfl

theorem bytes_copyLine (env : String) (name : List Char) :
    bytes (copyLine env name) = copyBytes (bytes env) (Utf8.encode name) := by
  have hopen : bytes "[\"" = [91, 34] := by decide
  have hclose : bytes "\"] = " = [34, 93, 32, 61, 32] := by decide
  rw [copyLine, bytes_append, bytes_append, bytes_append, bytes_append, hopen, hclose, bytes_ofList]
  simp [copyBytes]

theorem bytes_intercalate : ∀ names : List (List Char),
    bytes (", ".intercalate (names.map String.ofList)) = listBytes (names.map Utf8.encode)
  | [] => by
    rw [List.map_nil, String.intercalate_nil]
    rfl
  | [n] => by
    rw [List.map_singleton, String.intercalate_singleton, bytes_ofList]
    rfl
  | n :: n' :: names => by
    have hcomma : bytes ", " = [44, 32] := by decide
    have hmore := bytes_intercalate (n' :: names)
    rw [List.map_cons] at hmore
    rw [List.map_cons, List.map_cons, String.intercalate_cons_cons, bytes_append, bytes_append, bytes_ofList, hmore,
      hcomma, List.append_assoc]
    rfl

theorem bytes_returnLine (names : List (List Char)) :
    bytes (returnLine names) = returnBytes (names.map Utf8.encode) := by
  have hreturn : bytes "return " = bytes "return" ++ [32] := by decide
  rw [returnLine, bytes_append, bytes_intercalate, hreturn, List.append_assoc]
  rfl

theorem bytes_lines (env : String) (names : List (List Char)) : ∀ copies : List (List Char),
    bytes (joinLines (copies.map (copyLine env) ++ [returnLine names])) =
      lineBytes (bytes env) (copies.map Utf8.encode) (names.map Utf8.encode)
  | [] => by
    rw [List.map_nil, List.nil_append, bytes_joinLines_single, bytes_returnLine]
    rfl
  | n :: copies => by
    have hmore := bytes_lines env names copies
    rw [List.map_cons, List.cons_append]
    rcases hlines : copies.map (copyLine env) ++ [returnLine names] with _ | ⟨s, ss⟩
    · simp at hlines
    · rw [hlines] at hmore
      rw [bytes_joinLines_cons, hmore, bytes_copyLine]
      rfl

/-- A snippet of a shape, with the lines that make its names last. -/
theorem bytes_lasting (env : String) {code : String} (h : shape code ≠ .other) :
    bytes (lasting env code) = bytes code ++ 10 :: lineBytes (bytes env) ((shape code).copies.map Utf8.encode)
      ((shape code).returned.map Utf8.encode) := by
  rw [lasting, appendix_eq h, ← bytes_lines]
  rcases hlines : (shape code).copies.map (copyLine env) ++ [returnLine (shape code).returned] with _ | ⟨s, ss⟩
  · simp at hlines
  · exact bytes_joinLines_cons code s ss

/-- A snippet of no shape is left alone. -/
theorem lasting_other (env : String) {code : String} (h : shape code = .other) : lasting env code = code := by
  rw [lasting, h, Shape.appendix, joinLines]
  simp [joinWithChar]

/-! ## Local functions whose name is a reserved word -/

/-- White space between words. -/
structure Gap (w : List Char) : Prop where
  nonempty : w ≠ []
  spaces : ∀ c ∈ w, isSpace c = true

theorem stripLeft_eq (cs : List Char) : ∃ w, (∀ c ∈ w, isSpace c = true) ∧ cs = w ++ stripLeft cs :=
  ⟨cs.takeWhile isSpace, List.all_eq_true.1 List.all_takeWhile, (List.takeWhile_append_dropWhile (l := cs)).symm⟩

theorem strip_eq (cs : List Char) : ∃ w w', (∀ c ∈ w, isSpace c = true) ∧ (∀ c ∈ w', isSpace c = true) ∧
    cs = w ++ (strip cs ++ w') := by
  obtain ⟨w, hw, hcs⟩ := stripLeft_eq cs
  refine ⟨w, ((stripLeft cs).reverse.takeWhile isSpace).reverse, hw, ?_, ?_⟩
  · intro c hc
    exact List.all_eq_true.1 List.all_takeWhile c (List.mem_reverse.1 hc)
  · rw [strip, stripRight, ← List.reverse_append, List.takeWhile_append_dropWhile, List.reverse_reverse]
    exact hcs

theorem afterWord?_eq_some {word : String} (h : afterWord? word cs = some r) :
    ∃ w, Gap w ∧ cs = word.toList ++ (w ++ r) := by
  rw [afterWord?] at h
  split at h
  · rename_i c r' hafter
    rw [after?] at hafter
    split_ifs at h hafter with hspace hword
    obtain ⟨rest, rfl⟩ := List.isPrefixOf_iff_prefix.1 hword
    rw [List.drop_left] at hafter
    obtain rfl := Option.some.inj hafter
    obtain rfl := Option.some.inj h
    obtain ⟨w, hw, hr'⟩ := stripLeft_eq r'
    refine ⟨c :: w, ⟨List.cons_ne_nil c w, ?_⟩, ?_⟩
    · intro d hd
      rcases List.mem_cons.1 hd with rfl | hd
      · exact hspace
      · exact hw d hd
    · rw [List.cons_append, ← hr']
  · cases h

theorem of_guard_eq_some {p : Prop} [Decidable p] {u : Unit} (h : (guard p : Option Unit) = some u) : p := by
  by_contra hp
  rw [guard, if_neg hp] at h
  cases h

/-- What a text with a local function begins with. -/
theorem localFunction?_eq_some (h : localFunction? t = some name) : isWord name = true ∧ ∃ w₁ w₂ w₃ r,
    Gap w₁ ∧ Gap w₂ ∧ (∀ c ∈ w₃, isSpace c = true) ∧
      t = "local".toList ++ (w₁ ++ ("function".toList ++ (w₂ ++ (name ++ (w₃ ++ '(' :: r))))) := by
  obtain ⟨t₁, hlocal, h⟩ := Option.bind_eq_some_iff.1 h
  obtain ⟨t₂, hfunction, h⟩ := Option.bind_eq_some_iff.1 h
  obtain ⟨_, hword, h⟩ := Option.bind_eq_some_iff.1 h
  obtain ⟨_, hparen, hname⟩ := Option.bind_eq_some_iff.1 h
  obtain rfl := Option.some.inj hname
  obtain ⟨w₁, hw₁, rfl⟩ := afterWord?_eq_some hlocal
  obtain ⟨w₂, hw₂, rfl⟩ := afterWord?_eq_some hfunction
  obtain ⟨w₃, hw₃, hdrop⟩ := stripLeft_eq (t₂.dropWhile isNameRest)
  obtain ⟨r, hr⟩ := List.head?_eq_some_iff.1 (of_guard_eq_some hparen)
  have hrest : t₂ = t₂.takeWhile isNameRest ++ t₂.dropWhile isNameRest := List.takeWhile_append_dropWhile.symm
  rw [hdrop, hr] at hrest
  exact ⟨of_guard_eq_some hword, w₁, w₂, w₃, r, hw₁, hw₂, hw₃, by rw [← hrest]⟩

/-- No word goes on behind white space and a character that belongs to none. -/
theorem ends_spaces {w : List Char} {c : Char} (hw : ∀ c ∈ w, isSpace c = true) (hc : isNameRest c = false)
    (r : List Char) (y : Bytes) : Ends (Utf8.encode (w ++ c :: r) ++ y) := by
  rcases w with _ | ⟨d, w⟩
  · exact ends_encode hc r y
  · rw [encode_append, List.append_assoc]
    exact ends_gap (List.cons_ne_nil d w) hw _

/-- The tokens of a snippet that begins with a local function whose name is a reserved word. -/
theorem misnamed_lexed {code : String} (h : localFunction? (strip code.toList) = some name)
    (hres : isIdentifier (String.ofList name) = false) (y : Bytes) : Parser.Misnamed (lexed 1 (bytes code ++ y)).1 := by
  obtain ⟨hword, w₁, w₂, w₃, r, hw₁, hw₂, hw₃, hcode⟩ := localFunction?_eq_some h
  obtain ⟨w, w', hw, -, hstrip⟩ := strip_eq code.toList
  rw [hcode] at hstrip
  have hlocal : Lexer.IsWord (Utf8.encode "local".toList) := isWord_encode (by decide)
  have hfunction : Lexer.IsWord (Utf8.encode "function".toList) := isWord_encode (by decide)
  have hname : Lexer.IsWord (Utf8.encode name) := isWord_encode hword
  have hends : Ends (Utf8.encode (w₃ ++ '(' :: (r ++ w')) ++ y) := ends_spaces hw₃ (by decide) (r ++ w') y
  have hbytes : bytes code ++ y = Utf8.encode w ++ (Utf8.encode "local".toList ++ (Utf8.encode w₁ ++
      (Utf8.encode "function".toList ++ (Utf8.encode w₂ ++ (Utf8.encode name ++
        (Utf8.encode (w₃ ++ '(' :: (r ++ w')) ++ y)))))) := by
    rw [bytes, Utf8.ofString, hstrip]
    simp only [encode_append, encode_cons, List.append_assoc, List.cons_append]
  rw [hbytes]
  rcases lexed_gap (solid_append hlocal _).head hw 1 with hstray | ⟨last, hlast⟩
  · exact .inl hstray
  · rw [hlast, hlocal.lexed (ends_gap hw₁.nonempty hw₁.spaces _)]
    refine .inr ⟨_, _, rfl, (by decide : wordToken (Utf8.encode "local".toList) = .word .kLocal), ?_⟩
    rcases lexed_gap (solid_append hfunction _).head hw₁.spaces last with hstray | ⟨last', hlast'⟩
    · exact .inl hstray
    · rw [hlast', hfunction.lexed (ends_gap hw₂.nonempty hw₂.spaces _)]
      refine .inr ⟨_, _, rfl, (by decide : wordToken (Utf8.encode "function".toList) = .word .kFunction), ?_⟩
      rcases lexed_gap (solid_append hname _).head hw₂.spaces last' with hstray | ⟨last'', hlast''⟩
      · exact hstray.barred
      · rw [hlast'', hname.lexed hends]
        exact ⟨wordToken_ne_name hword hres, wordToken_ne_sym _ .lparen⟩

end Scratchpad.Snippet
