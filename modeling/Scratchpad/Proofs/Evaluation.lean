import Scratchpad.Evaluation
import Scratchpad.Proofs.Lua.Ending

/-!
# Evaluations that fail

A snippet fails if it does not compile (`Refuses`) or if its run ends in an error (`raised?`). Main statement: if all
runs come to an end, the evaluation itself fails just if the snippet's error is no text and has a metamethod for its
text that gives none; every other failure of a snippet is an outcome (`evaluate_cases`).
-/

namespace Scratchpad

open Lua

/-- The values that an evaluation yields, if it succeeds. -/
def Outcome.values? {ε α : Type} : Except ε (Outcome α) → Option (List α)
  | .ok (.success values _) => some values
  | _ => none

theorem Outcome.values?_eq_some {ε α : Type} {r : Except ε (Outcome α)} {values : List α} :
    Outcome.values? r = some values ↔ ∃ output, r = .ok (.success values output) := by
  rcases r with _ | ⟨values', output⟩ | _ <;> simp [Outcome.values?]

namespace Interpreter

variable {i : Interpreter} {p : Prog}

/-! ## What is left as it was -/

theorem tables_compile (i : Interpreter) (source name : String) (env : Lua.Value) :
    (i.compile source name env).2.store.tables = i.store.tables := by
  rw [compile]
  dsimp only
  split
  · rfl
  · split <;> rfl

/-! ## Shown values -/

/-- Only the coroutines decide how values are shown. -/
theorem shown_eq {i' : Interpreter} (h : i.threads = i'.threads) : i.shown = i'.shown := by
  funext v
  cases v <;> simp only [shown, outward, h]

theorem shown_int (i : Interpreter) (n : Int64) : i.shown (.int n) = .int n.toInt := rfl

/-! ## Runs that come to an end -/

/-- The run of a computation comes to an end. -/
def Halts (i : Interpreter) (p : Prog) : Prop :=
  (Machine.run maxSteps { store := i.store, threads := i.threads } p).2.isSome

theorem Halts.run (h : i.Halts p) :
    (Machine.run maxSteps { store := i.store, threads := i.threads } p).2 = some (i.run p).1 := by
  obtain ⟨r, hr⟩ := Option.isSome_iff_exists.1 h
  simp only [Interpreter.run, hr, Option.getD_some]

/-- The call that runs a program so that its errors are caught. -/
def protectedCall (f : Lua.Value) : Prog :=
  .call (.builtin (.lib .pcall)) [f] { position := some ⟨Library.environmentChunk, Library.callLine⟩, yieldable := true }
    .done

theorem protect_of_run {f e : Lua.Value} (h : (i.run (protectedCall f)).1 = .ok [.bool false, e]) :
    (i.protect f).1 = (false, [e]) := by
  simp only [protect]
  rw [show Prog.call _ _ _ _ = protectedCall f from rfl, h]
  rfl

/-- A protected run that comes to an end succeeds, or its error is caught. -/
theorem protect_cases {f : Lua.Value} (h : i.Halts (protectedCall f)) :
    (∃ vs, (i.protect f).1 = (true, vs)) ∨ ∃ e, (i.run (protectedCall f)).1 = .ok [.bool false, e] := by
  rcases Machine.run_pcall f _ h.run with ⟨vs, hr⟩ | ⟨e, hr⟩
  · refine .inl ⟨vs, ?_⟩
    simp only [protect]
    rw [show Prog.call _ _ _ _ = protectedCall f from rfl, hr]
    rfl
  · exact .inr ⟨e, hr⟩

/-- The call that makes the text of a value. -/
def textCall (v : Lua.Value) : Prog :=
  .call (.builtin (.lib .tostring)) [v] {} .done

/-- The value has a metamethod for its text that gives none. -/
def GivesNoText (i : Interpreter) (v : Lua.Value) : Prop :=
  Machine.GivesNoText i.store i.threads v

theorem textOf_cases {v : Lua.Value} (h : i.Halts (textCall v)) :
    (i.GivesNoText v ∧ ∃ f, (i.textOf v).1 = .error f) ∨ (¬ i.GivesNoText v ∧ ∃ t, (i.textOf v).1 = .ok t) := by
  obtain ⟨text, htext⟩ : ∃ text : Lua.Value → String,
      (i.textOf v).1 = ((((i.run (textCall v)).1).map Operation.first).mapError Fault.ofValue).map text := ⟨_, rfl⟩
  rcases Machine.run_tostring v h.run with ⟨hno, e, hr⟩ | ⟨hyes, t, hr⟩
  · exact .inl ⟨hno, Fault.ofValue e, by rw [htext, hr]; rfl⟩
  · exact .inr ⟨hyes, text (.str t), by rw [htext, hr]; rfl⟩

end Interpreter

namespace Evaluator

variable {e : Evaluator} {i : Interpreter} {env : Nat} {code : String}

/-! ## How snippets are compiled -/

/-- A snippet is compiled as one program, after at most one other that is none. -/
theorem compile_cases (e : Evaluator) (i : Interpreter) (env : Nat) (code : String) :
    ∃ (j : Interpreter) (source : String), (j = i ∨ ∃ source', j = (i.compile source' e.chunkName (.table env)).2) ∧
      (e.compile i env code).1 = (j.compile source e.chunkName (.table env)).1 ∧
      (e.compile i env code).2.1 = (j.compile source e.chunkName (.table env)).2 := by
  rw [compile]
  rcases hreturn : i.compile ("return " ++ code) e.chunkName (.table env) with ⟨_ | f, i₁⟩
  · have hstate : i₁ = (i.compile ("return " ++ code) e.chunkName (.table env)).2 := by rw [hreturn]
    refine ⟨i₁, Snippet.lasting e.envName code, .inr ⟨_, hstate⟩, ?_⟩
    dsimp only
    rcases i₁.compile (Snippet.lasting e.envName code) e.chunkName (.table env) with ⟨_ | f, i₂⟩
    all_goals exact ⟨rfl, rfl⟩
  · exact ⟨i, "return " ++ code, .inl rfl, by rw [hreturn], by rw [hreturn]⟩

/-- No table changes when a snippet is compiled. -/
theorem tables_compile (e : Evaluator) (i : Interpreter) (env : Nat) (code : String) :
    (e.compile i env code).2.1.store.tables = i.store.tables := by
  obtain ⟨j, source, hj, -, hstate⟩ := e.compile_cases i env code
  rw [hstate, Interpreter.tables_compile]
  rcases hj with rfl | ⟨source', rfl⟩
  · rfl
  · exact i.tables_compile source' _ _

/-! ## How snippets fail -/

/-- The state in which a compiled snippet runs: the environment's `print` records lines. -/
def capturing (i : Interpreter) (env : Nat) : Interpreter :=
  let n := i.evaluations + 1
  { i with store := { i.store.rawSet env Interpreter.printKey (.builtin (.capture n)) with run := n, printed := [] },
           evaluations := n }

/-- The state in which the run of a snippet has ended, before what `print` was is put back. -/
def ended (i : Interpreter) (env : Nat) (f : Lua.Value) : Interpreter :=
  ((capturing i env).protect f).2

theorem store_runCaptured (i : Interpreter) (env : Nat) (f : Lua.Value) : (runCaptured i env f).2.2.store =
    if ((ended i env f).store.rawGet env Interpreter.printKey).rawEq (.builtin (.capture (i.evaluations + 1))) then
      (ended i env f).store.rawSet env Interpreter.printKey (i.store.rawGet env Interpreter.printKey)
    else (ended i env f).store := rfl

/-- The snippet does not compile. -/
def Refuses (e : Evaluator) (i : Interpreter) (env : Nat) (code : String) : Prop :=
  ∃ message, (e.compile i env code).1 = .error message

/-- The error in which the run of a snippet ends, with the state after it; none if the snippet does not compile or its
run ends well. -/
def raised? (e : Evaluator) (i : Interpreter) (env : Nat) (code : String) : Option (Lua.Value × Interpreter) :=
  match e.compile i env code with
  | (.error _, _, _) => none
  | (.ok f, i, _) =>
    match ((capturing i env).run (Interpreter.protectedCall f)).1 with
    | .ok [.bool false, v] => some (v, (runCaptured i env f).2.2)
    | _ => none

def Fails (e : Evaluator) (i : Interpreter) (env : Nat) (code : String) : Prop :=
  e.Refuses i env code ∨ (e.raised? i env code).isSome

/-- The error is no text and gives none. -/
def HasNoText (i : Interpreter) (v : Lua.Value) : Prop :=
  (∀ t, i.shown v ≠ .text t) ∧ i.GivesNoText (i.outward v)

/-- The snippet fails with an error that has no text. -/
def FailsWithoutText (e : Evaluator) (i : Interpreter) (env : Nat) (code : String) : Prop :=
  ∃ v i', e.raised? i env code = some (v, i') ∧ HasNoText i' v

/-- The run of the snippet comes to an end, and so does the making of its error's text. -/
structure ComesToEnd (e : Evaluator) (i : Interpreter) (env : Nat) (code : String) : Prop where
  run : ∀ f i₁ notes, e.compile i env code = (.ok f, i₁, notes) → (capturing i₁ env).Halts (Interpreter.protectedCall f)
  text : ∀ v i', e.raised? i env code = some (v, i') → (∀ t, i'.shown v ≠ .text t) →
    i'.Halts (Interpreter.textCall (i'.outward v))

/-! ## What becomes of failures -/

theorem Refuses.compile_eq (h : e.Refuses i env code) :
    ∃ message i₁ notes, e.compile i env code = (.error message, i₁, notes) := by
  obtain ⟨message, hm⟩ := h
  exact ⟨message, _, _, Prod.ext hm rfl⟩

theorem evaluate_of_refuses (h : e.Refuses i env code) :
    ∃ message, (e.evaluate i env code).1 = .ok (.failure .compile message) := by
  obtain ⟨message, i₁, notes, hcompile⟩ := h.compile_eq
  exact ⟨message, by simp only [evaluate, hcompile]⟩

theorem evaluate_of_raised {v : Lua.Value} {i' : Interpreter} (h : e.raised? i env code = some (v, i')) :
    (e.evaluate i env code).1 = (failure i' v).1 := by
  rw [raised?] at h
  split at h
  · cases h
  · rename_i f i₁ notes hcompile
    split at h
    · rename_i w hrun
      cases h
      have hfst : (runCaptured i₁ env f).1 = (false, [v]) := Interpreter.protect_of_run (i := capturing i₁ env) hrun
      rcases hcaptured : runCaptured i₁ env f with ⟨r, lines, i'⟩
      rw [hcaptured] at hfst
      obtain rfl : r = (false, [v]) := hfst
      simp only [evaluate, hcompile, hcaptured]
      rfl
    · cases h

/-- A snippet that compiles and does not raise an error ends well, if its run comes to an end. -/
theorem evaluate_of_not_raised {f : Lua.Value} {i₁ : Interpreter} {notes : List EvaluationNote}
    (hcompile : e.compile i env code = (.ok f, i₁, notes))
    (hhalts : (capturing i₁ env).Halts (Interpreter.protectedCall f)) (h : e.raised? i env code = none) :
    ∃ values output, (e.evaluate i env code).1 = .ok (.success values output) := by
  rcases Interpreter.protect_cases hhalts with ⟨vs, hp⟩ | ⟨v, hrun⟩
  · have hfst : (runCaptured i₁ env f).1 = (true, vs) := hp
    rcases hcaptured : runCaptured i₁ env f with ⟨r, lines, i'⟩
    rw [hcaptured] at hfst
    obtain rfl : r = (true, vs) := hfst
    exact ⟨vs.map i'.shown, lines, by simp only [evaluate, hcompile, hcaptured]⟩
  · simp only [raised?, hcompile, hrun] at h
    cases h

/-- An error is an outcome, unless it has no text. -/
theorem failure_cases {v : Lua.Value}
    (h : (∀ t, i.shown v ≠ .text t) → i.Halts (Interpreter.textCall (i.outward v))) :
    (HasNoText i v ∧ ∃ f, (failure i v).1 = .error f) ∨
      (¬ HasNoText i v ∧ ∃ message, (failure i v).1 = .ok (.failure .runtime message)) := by
  simp only [failure]
  split
  · rename_i t ht
    exact .inr ⟨fun hno => hno.1 t ht, t, rfl⟩
  · rename_i ht
    rcases Interpreter.textOf_cases (h ht) with ⟨hno, f, hf⟩ | ⟨hyes, t, ht'⟩
    · exact .inl ⟨⟨ht, hno⟩, f, by rw [hf]; rfl⟩
    · exact .inr ⟨fun hno => hyes hno.2, t, by rw [ht']; rfl⟩

/-- The evaluation of a snippet whose run comes to an end fails just if the snippet fails without a text. Every other
failure of a snippet is an outcome. -/
theorem evaluate_cases (h : e.ComesToEnd i env code) :
    (e.FailsWithoutText i env code ∧ ∃ f, (e.evaluate i env code).1 = .error f) ∨
      (¬ e.FailsWithoutText i env code ∧ ∃ o, (e.evaluate i env code).1 = .ok o ∧
        (e.Fails i env code → ∃ stage message, o = .failure stage message)) := by
  rcases hraised : e.raised? i env code with _ | ⟨v, i'⟩
  · have hyes : ¬ e.FailsWithoutText i env code := by
      rintro ⟨v, i', hv, -⟩
      rw [hraised] at hv
      cases hv
    rcases hcompile : e.compile i env code with ⟨message | f, i₁, notes⟩
    · obtain ⟨m, hm⟩ := evaluate_of_refuses ⟨message, congrArg Prod.fst hcompile⟩
      exact .inr ⟨hyes, _, hm, fun _ => ⟨_, _, rfl⟩⟩
    · obtain ⟨values, output, ho⟩ := evaluate_of_not_raised hcompile (h.run f i₁ notes hcompile) hraised
      refine .inr ⟨hyes, _, ho, ?_⟩
      rintro (⟨message, hm⟩ | hsome)
      · rw [hcompile] at hm
        cases hm
      · rw [hraised] at hsome
        cases hsome
  · rw [evaluate_of_raised hraised]
    rcases failure_cases (h.text v i' hraised) with ⟨hno, hf⟩ | ⟨hyes, message, hm⟩
    · exact .inl ⟨⟨v, i', hraised, hno⟩, hf⟩
    · refine .inr ⟨?_, _, hm, fun _ => ⟨_, _, rfl⟩⟩
      rintro ⟨v', i'', hv, hno⟩
      rw [hraised] at hv
      cases hv
      exact hyes hno

end Evaluator

end Scratchpad
