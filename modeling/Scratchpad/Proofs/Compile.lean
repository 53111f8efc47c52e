import Scratchpad.Proofs.Evaluation
import Scratchpad.Proofs.Lua.Parser.Continued
import Scratchpad.Proofs.Snippet

/-!
# Snippets that do not compile

The lines behind a snippet hardly decide whether it compiles. Main statement: a snippet does not compile iff it is
neither an expression nor a chunk that a further statement may follow, where the latter is asked for only if lines are
put behind it (`evaluate_compile_iff`). Lines can complete a snippet only if it is a declaration that ends with a comma
or a dot (`Completed`). This is about the language as it is modelled, which knows no limit on registers.
-/

namespace Scratchpad

open Lua

namespace Lua.Parser

open Lexer

/-! ## Programs with lines behind them -/

section Lines

variable {source env bs x : Bytes} {names copies : List Bytes} {ts : List Token} {T : List Lexeme} {e : Lexeme}

/-- The last token is a comma or a dot. -/
def EndsOpen (bs : Bytes) : Prop :=
  ∃ l ∈ (lex bs).1.dropLast.getLast?, l.token = .sym .comma ∨ l.token = .sym .dot

/-- Another text behind a text without a lexical error. -/
theorem isProgram_append (source : Bytes) (hx : Detached x) (hts : Lexes x ts) (hlex : lexed 1 bs = (T ++ [e], none)) :
    ∃ A, A.map Lexeme.token = ts ∧
      (IsProgram source (bs ++ 10 :: x) ↔ Completes ((entry source []).before (T ++ A) none)) := by
  obtain ⟨last, happend⟩ := lexed_append hx 1 bs (by rw [hlex])
  obtain ⟨A, hA, htokens⟩ := hts last
  refine ⟨A, htokens, ?_⟩
  rw [isProgram_iff, lex_eq, happend, hlex, hA, List.dropLast_concat]
  exact ⟨And.right, fun h => ⟨rfl, h⟩⟩

theorem isProgram_iff_before (source : Bytes) (hlex : lexed 1 bs = (T ++ [e], none)) :
    IsProgram source bs ↔ Completes ((entry source []).before (T ++ [e]) none) := by
  rw [isProgram_iff, lex_eq, hlex]
  exact ⟨And.right, fun h => ⟨rfl, h⟩⟩

theorem topLevel_entry (source : Bytes) : TopLevel (entry source []) :=
  ⟨rfl, rfl, outline_entry source []⟩

/-- Lines behind a program do no more harm than an empty block. -/
theorem isProgram_lines_iff_block (henv : IsName env) (hnames : ∀ w ∈ names, IsName w) (hne : names ≠ [])
    (hcopies : ∀ w ∈ copies, IsName w) (h : IsProgram source bs) :
    IsProgram source (bs ++ 10 :: lineBytes env copies names) ↔ IsProgram source (bs ++ 10 :: bytes "do end") := by
  rcases lexed_cases 1 bs with ⟨T, e, hlex, he, heof⟩ | ⟨T, e, hlex, -⟩
  · obtain ⟨A, hA, hlines⟩ :=
      isProgram_append source (detached_lines henv hnames hcopies) (lexes_lines henv hnames hne hcopies) hlex
    obtain ⟨B, hB, hblock⟩ := isProgram_append source detached_block lexes_block hlex
    obtain ⟨a, B, rfl, ha, hB⟩ := List.map_eq_cons_iff.1 hB
    obtain ⟨b, B, rfl, hb, hB⟩ := List.map_eq_cons_iff.1 hB
    obtain ⟨d, B, rfl, hd, hB⟩ := List.map_eq_cons_iff.1 hB
    obtain rfl := List.map_eq_nil_iff.1 hB
    have hE : headToken [e] = .eof := he
    have hsequelA : Sequel A := sequel_lines hne hA
    have hsequelB : Sequel [a, b, d] := sequel_block ha hb hd
    rw [isProgram_iff_before source hlex] at h
    rw [hlines, hblock]
    exact ⟨completes_sequel hE hsequelA hsequelB _ T _ (Nat.le_refl _) heof (topLevel_entry source) h,
      completes_sequel hE hsequelB hsequelA _ T _ (Nat.le_refl _) heof (topLevel_entry source) h⟩
  · have herror := ((isProgram_iff source bs).1 h).1
    rw [lex_eq, hlex] at herror
    cases herror

/-- Lines complete nothing but what ends with a comma or a dot. -/
theorem isProgram_of_lines (henv : IsName env) (hnames : ∀ w ∈ names, IsName w) (hne : names ≠ [])
    (hcopies : ∀ w ∈ copies, IsName w) (hlast : copies ≠ [] → ¬ EndsOpen bs)
    (h : IsProgram source (bs ++ 10 :: lineBytes env copies names)) : IsProgram source bs := by
  have hdetached := detached_lines henv hnames hcopies
  rcases lexed_cases 1 bs with ⟨T, e, hlex, he, heof⟩ | ⟨T, e, hlex, -⟩
  · obtain ⟨A, hA, hlines⟩ := isProgram_append source hdetached (lexes_lines henv hnames hne hcopies) hlex
    have hseam : Seam T A := by
      refine seam_lines hA fun hcopies l hl => ?_
      have hopen := hlast hcopies
      rw [EndsOpen, lex_eq, hlex, List.dropLast_concat] at hopen
      exact ⟨fun hcomma => hopen ⟨l, hl, .inl hcomma⟩, fun hdot => hopen ⟨l, hl, .inr hdot⟩⟩
    have hE : headToken [e] = .eof := he
    rw [isProgram_iff_before source hlex]
    exact completes_alone hseam heof (neutral_lines hne hA) hE _ T _ (Nat.le_refl _) (List.suffix_refl T)
      (topLevel_entry source) (hlines.1 h)
  · have herror : (lexed 1 bs).2 ≠ none := by
      rw [hlex]
      simp
    exact absurd ((isProgram_iff source _).1 h).1 (lexed_append_error hdetached 1 bs herror)

end Lines

end Lua.Parser

namespace Evaluator

open Lua.Parser

variable {e : Evaluator} {i : Interpreter} {env : Nat} {code text : String}

/-! ## Texts that are compiled -/

/-- The text is a valid chunk. -/
def Accepts (e : Evaluator) (text : String) : Prop :=
  (bytes text).head? ≠ some Interpreter.compiledMark ∧ IsProgram (Interpreter.chunkName e.chunkName) (bytes text)

instance (e : Evaluator) (text : String) : Decidable (e.Accepts text) :=
  inferInstanceAs (Decidable (_ ∧ _))

theorem compile_isError_iff (e : Evaluator) (i : Interpreter) (text : String) (v : Lua.Value) :
    (∃ message, (i.compile text e.chunkName v).1 = .error message) ↔ ¬ e.Accepts text := by
  rw [Interpreter.compile, Accepts, IsProgram]
  dsimp only
  split
  · rename_i hmark
    exact ⟨fun _ h => h.1 hmark, fun _ => ⟨_, rfl⟩⟩
  · rename_i hmark
    split
    · rename_i error hparse
      refine ⟨fun _ h => ?_, fun _ => ⟨_, rfl⟩⟩
      obtain ⟨f, hf⟩ := h.2
      rw [hparse] at hf
      cases hf
    · rename_i f hparse
      exact ⟨by simp, fun h => absurd ⟨hmark, f, hparse⟩ h⟩

/-- A snippet is tried as an expression first, and then with its lines. -/
theorem refuses_iff : e.Refuses i env code ↔
    ¬ e.Accepts ("return " ++ code) ∧ ¬ e.Accepts (Snippet.lasting e.envName code) := by
  rw [Refuses, compile]
  rcases hexpr : i.compile ("return " ++ code) e.chunkName (.table env) with ⟨message | f, i'⟩
  · have hexpr' := (compile_isError_iff e i ("return " ++ code) (.table env)).1 ⟨message, congrArg Prod.fst hexpr⟩
    rw [← compile_isError_iff e i' (Snippet.lasting e.envName code) (.table env)]
    dsimp only
    rcases i'.compile (Snippet.lasting e.envName code) e.chunkName (.table env) with ⟨message' | f, i''⟩
    · exact ⟨fun _ => ⟨hexpr', _, rfl⟩, fun _ => ⟨_, rfl⟩⟩
    · exact ⟨by simp, (by rintro ⟨-, _, ⟨⟩⟩)⟩
  · refine ⟨by simp, fun h => ?_⟩
    obtain ⟨message, hm⟩ := (compile_isError_iff e i ("return " ++ code) (.table env)).2 h.1
    rw [hexpr] at hm
    cases hm

theorem failure_stage {v : Lua.Value} {stage : Stage} {message : String}
    (h : (failure i v).1 = .ok (.failure stage message)) : stage = .runtime := by
  simp only [failure] at h
  split at h
  · cases h
    rfl
  · rcases htext : (i.textOf (i.outward v)).1 with f | t
    · rw [htext] at h
      cases h
    · rw [htext] at h
      cases h
      rfl

/-- Only a snippet that does not compile fails at that stage. -/
theorem evaluate_compile_iff_refuses :
    (∃ message, (e.evaluate i env code).1 = .ok (.failure .compile message)) ↔ e.Refuses i env code := by
  refine ⟨fun ⟨message, h⟩ => ?_, evaluate_of_refuses⟩
  rcases hcompile : e.compile i env code with ⟨message' | f, i', notes⟩
  · exact ⟨message', congrArg Prod.fst hcompile⟩
  · rw [evaluate, hcompile] at h
    dsimp only at h
    split at h
    · cases h
    · exact absurd (failure_stage h) (by simp)

/-! ## Snippets and their lines -/

/-- A further statement may stand behind the snippet. -/
def MayGoOn (e : Evaluator) (code : String) : Prop :=
  e.Accepts (code ++ "\ndo end")

/-- The snippet is a declaration that ends with a comma or a dot, and the lines behind it complete it. -/
structure Completed (e : Evaluator) (code : String) : Prop where
  declares : (Snippet.shape code).copies ≠ []
  last : EndsOpen (bytes code)
  accepts : e.Accepts (Snippet.lasting e.envName code)

theorem bytes_block (code : String) : bytes (code ++ "\ndo end") = bytes code ++ 10 :: bytes "do end" := by
  have hblock : bytes "\ndo end" = 10 :: bytes "do end" := by decide
  rw [bytes_append, hblock]

theorem head?_line (bs x : Bytes) :
    (bs ++ 10 :: x).head? ≠ some Interpreter.compiledMark ↔ bs.head? ≠ some Interpreter.compiledMark := by
  cases bs with
  | nil => exact ⟨fun _ => (by simp), fun _ h => absurd (Option.some.inj h) (by decide)⟩
  | cons b bs => rfl

/-- Tokens that begin with a local function whose name is a reserved word are no program. -/
theorem not_isProgram_misnamed {name : List Char} (source : Bytes)
    (h : Snippet.localFunction? (Text.strip code.toList) = some name) (hres : isIdentifier (String.ofList name) = false)
    (x : Bytes) : ¬ IsProgram source (bytes code ++ x) := fun hprogram =>
  not_completes_misnamed (Snippet.misnamed_lexed h hres x) ((isProgram_iff source _).1 hprogram).2

/-- The chunk with a line behind it, once both are bytes. -/
theorem accepts_line_iff {line : Bytes} (h : bytes text = bytes code ++ 10 :: line) : e.Accepts text ↔
    (bytes code).head? ≠ some Interpreter.compiledMark ∧
      IsProgram (Interpreter.chunkName e.chunkName) (bytes code ++ 10 :: line) := by
  rw [Accepts, h, head?_line]

/-- No line stands behind a snippet of another shape. -/
theorem accepts_lasting_iff_of_other (hshape : Snippet.shape code = .other) :
    e.Accepts (Snippet.lasting e.envName code) ↔
      e.Accepts code ∧ (Snippet.shape code ≠ .other → e.MayGoOn code) ∨ e.Completed code := by
  rw [Snippet.lasting_other e.envName hshape]
  refine ⟨fun h => .inl ⟨h, fun hne => absurd hshape hne⟩, ?_⟩
  rintro (⟨h, -⟩ | h)
  · exact h
  · have hdeclares := h.declares
    rw [hshape] at hdeclares
    exact absurd rfl hdeclares

/-- Lines of names change what an empty block would change, unless they complete the snippet. -/
theorem accepts_lasting_iff_of_identifiers (henv : Lexer.IsName (bytes e.envName)) (hshape : Snippet.shape code ≠ .other)
    (hne : (Snippet.shape code).returned ≠ [])
    (hidentifiers : ∀ n ∈ (Snippet.shape code).returned, isIdentifier (String.ofList n) = true) :
    e.Accepts (Snippet.lasting e.envName code) ↔
      e.Accepts code ∧ (Snippet.shape code ≠ .other → e.MayGoOn code) ∨ e.Completed code := by
  have hlasting := accepts_line_iff (e := e) (Snippet.bytes_lasting e.envName hshape)
  have hgo := accepts_line_iff (e := e) (bytes_block code)
  have hnames : ∀ w ∈ (Snippet.shape code).returned.map Text.Utf8.encode, Lexer.IsName w := by
    intro w hw
    obtain ⟨n, hn, rfl⟩ := List.mem_map.1 hw
    exact isName_of_isIdentifier (hidentifiers n hn)
  have hcopies : ∀ w ∈ (Snippet.shape code).copies.map Text.Utf8.encode, Lexer.IsName w := by
    intro w hw
    obtain ⟨n, hn, rfl⟩ := List.mem_map.1 hw
    exact isName_of_isIdentifier (hidentifiers n (Snippet.mem_returned_of_mem_copies hn))
  have hne' : (Snippet.shape code).returned.map Text.Utf8.encode ≠ [] := fun hnil =>
    hne (List.map_eq_nil_iff.1 hnil)
  constructor
  · intro hacc
    obtain ⟨hmark, hprogram⟩ := hlasting.1 hacc
    by_cases hopen : (Snippet.shape code).copies ≠ [] ∧ EndsOpen (bytes code)
    · exact .inr ⟨hopen.1, hopen.2, hacc⟩
    · have halone := isProgram_of_lines henv hnames hne' hcopies
        (fun hc hlast => hopen ⟨by simpa using hc, hlast⟩) hprogram
      exact .inl ⟨⟨hmark, halone⟩, fun _ =>
        hgo.2 ⟨hmark, (isProgram_lines_iff_block henv hnames hne' hcopies halone).1 hprogram⟩⟩
  · rintro (⟨hacc, hmore⟩ | hcompleted)
    · obtain ⟨hmark, hblock⟩ := hgo.1 (hmore hshape)
      exact hlasting.2 ⟨hmark, (isProgram_lines_iff_block henv hnames hne' hcopies hacc.2).2 hblock⟩
    · exact hcompleted.accepts

/-- A local function whose name is a reserved word is no chunk, with or without its line. -/
theorem accepts_lasting_iff_of_misnamed {name : List Char} (hshape : Snippet.shape code ≠ .other)
    (hname : Snippet.localFunction? (Text.strip code.toList) = some name)
    (hres : isIdentifier (String.ofList name) = false) :
    e.Accepts (Snippet.lasting e.envName code) ↔
      e.Accepts code ∧ (Snippet.shape code ≠ .other → e.MayGoOn code) ∨ e.Completed code := by
  have hno : ∀ x, ¬ IsProgram (Interpreter.chunkName e.chunkName) (bytes code ++ x) :=
    not_isProgram_misnamed _ hname hres
  have halone := hno []
  rw [List.append_nil] at halone
  constructor
  · intro hacc
    exact absurd ((accepts_line_iff (Snippet.bytes_lasting e.envName hshape)).1 hacc).2 (hno _)
  · rintro (⟨hacc, -⟩ | hcompleted)
    · exact absurd hacc.2 halone
    · exact hcompleted.accepts

/-- What the lines behind a snippet change. -/
theorem accepts_lasting_iff (h : isIdentifier e.envName = true) : e.Accepts (Snippet.lasting e.envName code) ↔
    e.Accepts code ∧ (Snippet.shape code ≠ .other → e.MayGoOn code) ∨ e.Completed code := by
  by_cases hshape : Snippet.shape code = .other
  · exact accepts_lasting_iff_of_other hshape
  · have henv : Lexer.IsName (bytes e.envName) := by
      rw [← String.ofList_toList (s := e.envName)] at h ⊢
      rw [bytes_ofList]
      exact isName_of_isIdentifier h
    rcases Snippet.returned_cases hshape with ⟨hne, hidentifiers⟩ | ⟨name, hname, hres⟩
    · exact accepts_lasting_iff_of_identifiers henv hshape hne hidentifiers
    · exact accepts_lasting_iff_of_misnamed hshape hname hres

/-- A snippet is refused just if it is neither an expression, nor a chunk that a statement may follow where lines are
put behind it, nor a declaration that the lines complete. -/
theorem evaluate_compile_iff (h : isIdentifier e.envName = true) :
    (∃ message, (e.evaluate i env code).1 = .ok (.failure .compile message)) ↔
      ¬ e.Accepts ("return " ++ code) ∧ ¬ (e.Accepts code ∧ (Snippet.shape code ≠ .other → e.MayGoOn code)) ∧
        ¬ e.Completed code := by
  rw [evaluate_compile_iff_refuses, refuses_iff, accepts_lasting_iff h, not_or]

/-- A declaration with a statement behind it is not refused. -/
theorem evaluate_two_statements :
    let i := ({} : Interpreter).newEnvironment
    ¬ ∃ message, (({} : Evaluator).evaluate i.2 i.1 "local x = 1\nx = x + 1").1 = .ok (.failure .compile message) := by
  intro i
  have hgo : ({} : Evaluator).Accepts "local x = 1\nx = x + 1" ∧
      ({} : Evaluator).Accepts ("local x = 1\nx = x + 1" ++ "\ndo end") := by decide +kernel
  rw [evaluate_compile_iff (by decide)]
  exact fun h => h.2.1 ⟨hgo.1, fun _ => hgo.2⟩

/-- A chunk that ends with `return` is refused if it begins with an assignment: nothing may follow it. -/
theorem evaluate_assignment_and_return :
    let i := ({} : Interpreter).newEnvironment
    (∃ message, (({} : Evaluator).evaluate i.2 i.1 "x = 1 return x").1 = .ok (.failure .compile message)) ∧
      ({} : Evaluator).Accepts "x = 1 return x" := by
  intro i
  refine ⟨evaluate_compile_iff_refuses.2 (refuses_iff.2 ?_), ?_⟩
  · decide +kernel
  · decide +kernel

/-- The line that copies `x` completes a call without a field name. -/
example :
    let i := ({} : Interpreter).newEnvironment
    (¬ ∃ message, (({} : Evaluator).evaluate i.2 i.1 "local x = y z.").1 = .ok (.failure .compile message)) ∧
      ¬ ({} : Evaluator).Accepts "local x = y z." ∧ ¬ ({} : Evaluator).Accepts ("return " ++ "local x = y z.") := by
  intro i
  rw [evaluate_compile_iff_refuses, refuses_iff]
  decide +kernel

end Evaluator

end Scratchpad
