import Scratchpad.Proofs.Compile
import Scratchpad.Proofs.Lua.Parser.Returned

/-!
# Snippets that are tried as expressions

A snippet is first compiled behind `return`. Main statement: if it is a chunk by itself as well, then it is empty or one
call, and the function that is run returns that same call (`eitherWay_of_accepts`).
-/

namespace Scratchpad

open Lua

namespace Lua.Parser

open Lexer

/-- The tokens of a text behind `return`. -/
theorem lexed_return (bs : Bytes) : lexed 1 (bytes "return " ++ bs) =
    (⟨.word .kReturn, bytes "return", 1⟩ :: (lexed 1 bs).1, (lexed 1 bs).2) := by
  have hspace : bytes "return " ++ bs = bytes "return" ++ 32 :: bs := by
    have hreturn : bytes "return " = bytes "return" ++ [32] := by decide
    rw [hreturn, List.append_assoc]
    rfl
  have hskip : next 1 (32 :: bs) = .skip 1 bs := rfl
  have hends : Ends (32 :: bs) := by
    rintro b hb
    cases hb
    decide
  rw [hspace, isWord_return.lexed hends, lexed_skip hskip]
  rfl

/-- A program that is still one behind `return` is empty or one call, and returns that call. -/
theorem eitherWay_of_parse {source bs : Bytes} {f g : Func} (hf : parse source bs = .ok f)
    (hg : parse source (bytes "return " ++ bs) = .ok g) : EitherWay source (lex bs).1 f.body g.body := by
  obtain ⟨hlex, body, hbody, rfl⟩ := (parse_eq_ok_iff source bs f).1 hf
  obtain ⟨-, body', hbody', rfl⟩ := (parse_eq_ok_iff source _ g).1 hg
  rw [lex_eq] at hlex hbody ⊢
  rw [lex_eq, lexed_return] at hbody'
  rcases lexed_cases 1 bs with ⟨T, e, hT, he, heof⟩ | ⟨T, e, hT, -⟩
  · rw [hT] at hbody hbody' ⊢
    exact eitherWay_of_yields rfl rfl heof he hbody hbody'
  · rw [hT] at hlex
    cases hlex

end Lua.Parser

namespace Evaluator

open Lua.Parser

variable {e : Evaluator} {code : String}

/-- A snippet that can be returned and is a chunk by itself is empty or one call, each with at most one semicolon, and
the function that is run returns that call. -/
theorem eitherWay_of_accepts (hcode : e.Accepts code) (hreturn : e.Accepts ("return " ++ code)) :
    let source := Interpreter.chunkName e.chunkName
    ∃ f g, parse source (bytes code) = .ok f ∧ parse source (bytes ("return " ++ code)) = .ok g ∧
      EitherWay source (lex (bytes code)).1 f.body g.body ∧ ∀ i env, ∃ i',
        e.compile i env code = (.ok (.closure i.store.closures.size), i', []) ∧
          i'.store.closures = i.store.closures.push ⟨g, [i.store.cells.size]⟩ := by
  intro source
  obtain ⟨hmark, g, hg⟩ := hreturn
  obtain ⟨-, f, hf⟩ := hcode
  refine ⟨f, g, hf, hg, ?_, fun i env => ?_⟩
  · rw [bytes_append] at hg
    exact eitherWay_of_parse hf hg
  · rw [compile, Interpreter.compile, if_neg hmark]
    dsimp only
    rw [hg]
    exact ⟨_, rfl, rfl⟩

/-- A call with a semicolon. -/
theorem eitherWay_print :
    let e : Evaluator := {}
    let source := Interpreter.chunkName e.chunkName
    (e.Accepts "print(1);" ∧ e.Accepts ("return " ++ "print(1);")) ∧ ∃ f g,
      parse source (bytes "print(1);") = .ok f ∧ parse source (bytes ("return " ++ "print(1);")) = .ok g ∧
        EitherWay source (lex (bytes "print(1);")).1 f.body g.body := by
  intro e source
  have haccepts : e.Accepts "print(1);" ∧ e.Accepts ("return " ++ "print(1);") := by decide +kernel
  obtain ⟨f, g, hf, hg, heither, -⟩ := eitherWay_of_accepts haccepts.1 haccepts.2
  exact ⟨haccepts, f, g, hf, hg, heither⟩

end Evaluator

end Scratchpad
