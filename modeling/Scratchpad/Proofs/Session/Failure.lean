import Scratchpad.Proofs.Evaluation
import Scratchpad.Proofs.Session.Run

/-!
# Regions that fail

The snippet of a region may fail to compile, or its run may end in an error. Main statement: if the runs come to an end,
the run of a region of an open surface raises an error just if the snippet's error is no text and has a metamethod for
its text that gives none; every other failure leaves an error block behind the region (`runFrom_evaluateRegion_failure`).
-/

namespace Scratchpad.Session

variable {s : Session} {id : SurfaceId} {start : Surface} {first last : Int}

/-- The run of a region evaluates the snippet `code` with `e` in the environment `env`, in the state `i`. -/
def Evaluates (s : Session) (id : SurfaceId) (first last : Int) (e : Evaluator) (i : Interpreter) (env : Nat)
    (code : String) : Prop :=
  ∃ start, s.surfaces.lookup id = some start ∧ 0 ≤ first ∧ first ≤ lastLine start last ∧
    code = textOf start first (lastLine start last) ∧ e = { chunkName := s.settings.chunkName } ∧
    env = ((s.registry.touch id).getOrCreate s.interpreter id).1 ∧
    i = ((s.registry.touch id).getOrCreate s.interpreter id).2.2.2

/-- The outcome of a text is that of its evaluation in the environment of the surface. -/
theorem runFrom_evaluateText_fst (s : Session) (id : SurfaceId) (code : String) :
    ((evaluateText id code).runFrom s).1 =
      (({ chunkName := s.settings.chunkName } : Evaluator).evaluate (s.registry.getOrCreate s.interpreter id).2.2.2
        (s.registry.getOrCreate s.interpreter id).1 code).1.mapError SessionError.fault := by
  simp only [evaluateText, environment, runFrom_bind, runFrom_get, runFrom_set]
  rcases s.registry.getOrCreate s.interpreter id with ⟨env, _ | _, registry, i⟩
  all_goals
    simp only [Bool.false_eq_true, if_false, if_true, runFrom_pure, runFrom_note, runFrom_bind]
    rcases Evaluator.evaluate _ i env code with ⟨_ | o, i', notes⟩ <;> rfl

variable {e : Evaluator} {i : Interpreter} {env : Nat} {code : String}

theorem Evaluates.range (h : s.Evaluates id first last e i env code) (hs : s.surfaces.lookup id = some start) :
    0 ≤ first ∧ first ≤ lastLine start last := by
  obtain ⟨start', hs', h0, hle, -⟩ := h
  rw [hs] at hs'
  cases hs'
  exact ⟨h0, hle⟩

/-- There is one evaluation at most in the run of a region. -/
theorem Evaluates.unique {e' : Evaluator} {i' : Interpreter} {env' : Nat} {code' : String}
    (h : s.Evaluates id first last e i env code) (h' : s.Evaluates id first last e' i' env' code') :
    e' = e ∧ i' = i ∧ env' = env ∧ code' = code := by
  obtain ⟨start, hs, -, -, rfl, rfl, rfl, rfl⟩ := h
  obtain ⟨start', hs', -, -, rfl, rfl, rfl, rfl⟩ := h'
  rw [hs] at hs'
  cases hs'
  exact ⟨rfl, rfl, rfl, rfl⟩

/-- The outcome of the region's text, once the old block is gone. -/
theorem Evaluates.runFrom_fst (h : s.Evaluates id first last e i env code) (hs : s.surfaces.lookup id = some start) :
    ((evaluateText id (textOf start first (lastLine start last))).runFrom
        (s.cleared id start (lastLine start last))).1 =
      (e.evaluate i env code).1.mapError SessionError.fault := by
  obtain ⟨start', hs', -, -, rfl, rfl, rfl, rfl⟩ := h
  rw [hs] at hs'
  cases hs'
  exact runFrom_evaluateText_fst _ _ _

/-- An error block has a line. -/
theorem lines_ofText_ne_nil (settings : Settings) (role : Role) (text : String) :
    (Block.ofText settings role text).lines ≠ [] := by
  simpa [Block.ofText, Block.lines] using Text.splitLines_ne_nil text

/-- The snippet of a region of an open surface is evaluated if the region has a line. -/
theorem exists_evaluates (hs : s.surfaces.lookup id = some start) (h0 : 0 ≤ first) (hle : first ≤ lastLine start last) :
    ∃ e i env code, s.Evaluates id first last e i env code :=
  ⟨_, _, _, _, start, hs, h0, hle, rfl, rfl, rfl, rfl⟩

/-- An error of the evaluator is one of the run. -/
theorem Evaluates.run_of_error (h : s.Evaluates id first last e i env code) (hs : s.surfaces.lookup id = some start)
    {f : Fault} (hf : (e.evaluate i env code).1 = .error f) :
    ((evaluateRegion id first last).runFrom s).1 = .error (.fault f) := by
  obtain ⟨h0, hle⟩ := h.range hs
  have hfst := h.runFrom_fst hs
  rw [hf] at hfst
  rw [runFrom_evaluateRegion_of_error hs h0 hle (Prod.ext hfst rfl)]

/-- An outcome of the evaluator is shown behind the region. -/
theorem Evaluates.run_of_ok (h : s.Evaluates id first last e i env code) (hs : s.surfaces.lookup id = some start)
    {o : Outcome Inspect.Value} (ho : (e.evaluate i env code).1 = .ok o) :
    ∃ inserted shown, ((evaluateRegion id first last).runFrom s).1 = .ok inserted ∧
      ((evaluateRegion id first last).runFrom s).2.lines? id = some (linesAfter s.settings (lastLine start last)
        (Block.ofOutcome s.settings shown o).lines start.lines) := by
  obtain ⟨h0, hle⟩ := h.range hs
  have hfst := h.runFrom_fst hs
  rw [ho] at hfst
  obtain ⟨inserted, s', hrun, -, hlines⟩ := runFrom_evaluateRegion_of_ok hs h0 hle (Prod.ext hfst rfl)
  rw [hrun]
  exact ⟨inserted, _, rfl, hlines⟩

/-- If all runs come to an end, the run of a region of an open surface raises an error just if its snippet fails with an
error that is no text and gives none. Every other failure leaves an error block behind the region. -/
theorem runFrom_evaluateRegion_failure (hs : s.surfaces.lookup id = some start)
    (hends : ∀ e i env code, s.Evaluates id first last e i env code → e.ComesToEnd i env code) :
    ((∃ err, ((evaluateRegion id first last).runFrom s).1 = .error err) ↔
      ∃ e i env code, s.Evaluates id first last e i env code ∧ e.FailsWithoutText i env code) ∧
    ∀ e i env code, s.Evaluates id first last e i env code → e.Fails i env code → ¬ e.FailsWithoutText i env code →
      ∃ inserted message, ((evaluateRegion id first last).runFrom s).1 = .ok inserted ∧
        (Block.ofText s.settings .error message).lines ≠ [] ∧
        ((evaluateRegion id first last).runFrom s).2.lines? id = some (linesAfter s.settings (lastLine start last)
          (Block.ofText s.settings .error message).lines start.lines) := by
  by_cases hr : 0 ≤ first ∧ first ≤ lastLine start last
  · obtain ⟨e, i, env, code, he⟩ := exists_evaluates hs hr.1 hr.2
    rcases Evaluator.evaluate_cases (hends e i env code he) with ⟨hno, f, hf⟩ | ⟨hyes, o, ho, hfails⟩
    · refine ⟨⟨fun _ => ⟨e, i, env, code, he, hno⟩, fun _ => ⟨_, he.run_of_error hs hf⟩⟩,
        fun e' i' env' code' he' _ hyes => ?_⟩
      obtain ⟨rfl, rfl, rfl, rfl⟩ := he.unique he'
      exact absurd hno hyes
    · obtain ⟨inserted, shown, hok, hlines⟩ := he.run_of_ok hs ho
      refine ⟨⟨?_, ?_⟩, fun e' i' env' code' he' hfail _ => ?_⟩
      · rintro ⟨err, herr⟩
        rw [hok] at herr
        cases herr
      · rintro ⟨e', i', env', code', he', hno⟩
        obtain ⟨rfl, rfl, rfl, rfl⟩ := he.unique he'
        exact absurd hno hyes
      · obtain ⟨rfl, rfl, rfl, rfl⟩ := he.unique he'
        obtain ⟨stage, message, rfl⟩ := hfails hfail
        exact ⟨inserted, message, hok, lines_ofText_ne_nil _ _ _, hlines⟩
  · have hnone : ∀ e i env code, ¬ s.Evaluates id first last e i env code := fun e i env code he => hr (he.range hs)
    refine ⟨⟨?_, ?_⟩, fun e i env code he => absurd he (hnone e i env code)⟩
    · rintro ⟨err, herr⟩
      rw [runFrom_evaluateRegion_of_empty hs (by rw [lastLine] at hr; omega)] at herr
      cases herr
    · rintro ⟨e, i, env, code, he, -⟩
      exact absurd he (hnone e i env code)

/-- The error `nil` of the snippet `error()` is shown in an error block. -/
theorem runFrom_evaluateRegion_error_nil :
    let s := ofLines ["error()", "-- => 7", "", "y"]
    ∃ inserted message, ((evaluateRegion (.text "s") 0 0).runFrom s).1 = .ok inserted ∧
      (Block.ofText s.settings .error message).lines ≠ [] ∧
      ((evaluateRegion (.text "s") 0 0).runFrom s).2.lines? (.text "s") =
        some (linesAfter s.settings 0 (Block.ofText s.settings .error message).lines
          ["error()", "-- => 7", "", "y"]) := by
  intro s
  let e : Evaluator := { chunkName := s.settings.chunkName }
  let i := ((s.registry.touch (.text "s")).getOrCreate s.interpreter (.text "s")).2.2.2
  let env := ((s.registry.touch (.text "s")).getOrCreate s.interpreter (.text "s")).1
  have he : s.Evaluates (.text "s") 0 0 e i env "error()" :=
    ⟨_, rfl, by decide, by decide, by decide +kernel, rfl, rfl, rfl⟩
  have hrun : ((e.compile i env "error()").1.toOption.all fun f => (Lua.Machine.run Interpreter.maxSteps
      { store := (Evaluator.capturing (e.compile i env "error()").2.1 env).store
        threads := (Evaluator.capturing (e.compile i env "error()").2.1 env).threads }
      (Interpreter.protectedCall f)).2.isSome) = true := by decide +kernel
  have hraised : ((e.raised? i env "error()").any fun r => (r.2.outward r.1).isNil &&
      (Lua.Machine.run Interpreter.maxSteps { store := r.2.store, threads := r.2.threads }
        (Interpreter.textCall (r.2.outward r.1))).2.isSome) = true := by decide +kernel
  obtain ⟨⟨v, i'⟩, hv, hcheck⟩ := (Option.any_eq_true _ _).1 hraised
  obtain ⟨hnil, hhalts⟩ := Bool.and_eq_true_iff.1 hcheck
  have hends : ∀ e' i' env' code', s.Evaluates (.text "s") 0 0 e' i' env' code' → e'.ComesToEnd i' env' code' := by
    intro e' i₁ env' code' he'
    obtain ⟨rfl, rfl, rfl, rfl⟩ := he.unique he'
    refine ⟨fun f i₂ notes hcompile => ?_, fun w i₂ hw _ => ?_⟩
    · rw [hcompile] at hrun
      exact hrun
    · rw [hv] at hw
      cases hw
      exact hhalts
  have hyes : ¬ e.FailsWithoutText i env "error()" := by
    rintro ⟨w, i₂, hw, -, hno⟩
    rw [hv] at hw
    cases hw
    cases hout : i'.outward v with
    | nil =>
      rw [hout] at hno
      exact absurd hno.1 (by rintro ⟨⟩)
    | _ =>
      rw [hout] at hnil
      cases hnil
  exact (runFrom_evaluateRegion_failure rfl hends).2 e i env "error()" he (.inr (by rw [hv]; rfl)) hyes

/-- An error that has no text leaves the lines behind the region without the old block, and without a new one. -/
theorem runFrom_evaluateRegion_error_without_text :
    let s := ofLines ["error(setmetatable(\x7b\x7d, \x7b__tostring = function() error('no') end\x7d))", "-- => 1", "",
      "y"]
    ((evaluateRegion (.text "s") 0 0).runFrom s).1.toOption = none ∧
      ((evaluateRegion (.text "s") 0 0).runFrom s).2.lines? (.text "s") =
        some ["error(setmetatable(\x7b\x7d, \x7b__tostring = function() error('no') end\x7d))", "y"] := by
  decide +kernel

end Scratchpad.Session
