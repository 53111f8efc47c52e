import Scratchpad.Proofs.Interpreter

/-!
# The `print` that records lines

While a snippet runs, the field `print` of its environment holds a function that records lines. That function is made
for the evaluation: no value in a state that `Arises` is one that records lines for an evaluation to come
(`Arises.keeps`). Main statement: the function is taken back when the run ends, unless the run has put something else in
its place, and evaluations themselves change no other field (`print_taken_back`).
-/

namespace Scratchpad

open Lua

namespace Interpreter

/-! ## Numbers of evaluations -/

theorem evaluations_run (i : Interpreter) (p : Prog) : (i.run p).2.evaluations = i.evaluations := rfl

theorem protect_snd (i : Interpreter) (f : Lua.Value) : (i.protect f).2 = (i.run (protectedCall f)).2 := by
  rw [protect]
  dsimp only
  split <;> rfl

theorem evaluations_compile (i : Interpreter) (source name : String) (env : Lua.Value) :
    (i.compile source name env).2.evaluations = i.evaluations := by
  rw [compile]
  dsimp only
  split
  · rfl
  · split <;> rfl

end Interpreter

namespace Evaluator

variable {e : Evaluator} {i i₁ : Interpreter} {env : Nat} {code : String} {f : Lua.Value} {notes : List EvaluationNote}

theorem evaluations_compile (e : Evaluator) (i : Interpreter) (env : Nat) (code : String) :
    (e.compile i env code).2.1.evaluations = i.evaluations := by
  obtain ⟨j, source, hj, -, hstate⟩ := e.compile_cases i env code
  rw [hstate, Interpreter.evaluations_compile]
  rcases hj with rfl | ⟨source', rfl⟩
  · rfl
  · exact i.evaluations_compile source' _ _

theorem evaluations_runCaptured (i : Interpreter) (env : Nat) (f : Lua.Value) :
    (runCaptured i env f).2.2.evaluations = i.evaluations + 1 :=
  (congrArg Interpreter.evaluations ((capturing i env).protect_snd f)).trans (Interpreter.evaluations_run _ _)

theorem evaluations_failure (i : Interpreter) (v : Lua.Value) : (failure i v).2.evaluations = i.evaluations := by
  rw [failure]
  split <;> rfl

theorem state_evaluate_of_refuses (h : e.Refuses i env code) :
    (e.evaluate i env code).2.1 = (e.compile i env code).2.1 := by
  obtain ⟨message, i₁, notes, hcompile⟩ := h.compile_eq
  simp only [evaluate, hcompile]

/-- What is left of the evaluation of a snippet that compiles. -/
theorem state_evaluate_of_compile (h : e.compile i env code = (.ok f, i₁, notes)) : (e.evaluate i env code).2.1 =
    if (runCaptured i₁ env f).1.1 then (runCaptured i₁ env f).2.2
    else (failure (runCaptured i₁ env f).2.2 (Operation.first (runCaptured i₁ env f).1.2)).2 := by
  rcases hcaptured : runCaptured i₁ env f with ⟨⟨_ | _, vs⟩, lines, i₂⟩
  all_goals simp only [evaluate, h, hcaptured]; rfl

theorem evaluations_evaluate (h : e.compile i env code = (.ok f, i₁, notes)) :
    (e.evaluate i env code).2.1.evaluations = i.evaluations + 1 := by
  have hcompile : i₁.evaluations = i.evaluations := by
    rw [← evaluations_compile e i env code, h]
  rw [state_evaluate_of_compile h]
  split
  · rw [evaluations_runCaptured, hcompile]
  · rw [evaluations_failure, evaluations_runCaptured, hcompile]

end Evaluator

/-! ## Functions that are new -/

namespace Interpreter

/-- The function that records the lines of the next evaluation. -/
def recorder (i : Interpreter) : Lua.Value :=
  .builtin (.capture (i.evaluations + 1))

/-- The value is not the function of an evaluation to come. -/
def Made (i : Interpreter) (v : Lua.Value) : Prop :=
  ∀ n, v = .builtin (.capture n) → n ≤ i.evaluations

/-- A state that the interpreter can get into if the values that it is given from outside are ones that there are. -/
inductive Arises : Interpreter → Prop where
  | initial : Arises {}
  | newEnvironment {i} (h : Arises i) : Arises i.newEnvironment.2
  | restoreSelf {i} (h : Arises i) (env : Nat) : Arises (i.restoreSelf env)
  | rawGet {i table key} (h : Arises i) (htable : i.Made table) (hkey : i.Made key) : Arises (i.rawGet table key).2
  | rawSet {i table key v} (h : Arises i) (htable : i.Made table) (hkey : i.Made key) (hv : i.Made v) :
      Arises (i.rawSet table key v).2
  | index {i table key} (h : Arises i) (htable : i.Made table) (hkey : i.Made key) : Arises (i.index table key).2
  | setIndex {i table key v} (h : Arises i) (htable : i.Made table) (hkey : i.Made key) (hv : i.Made v) :
      Arises (i.setIndex table key v).2
  | textOf {i v} (h : Arises i) (hv : i.Made v) : Arises (i.textOf v).2
  | compile {i env} (h : Arises i) (source name : String) (henv : i.Made env) : Arises (i.compile source name env).2
  | protect {i f} (h : Arises i) (hf : i.Made f) : Arises (i.protect f).2
  | evaluate {i} (h : Arises i) (e : Evaluator) (env : Nat) (code : String) : Arises (e.evaluate i env code).2.1

variable {i : Interpreter} {v : Lua.Value} {n : Nat}

theorem Arises.reached (h : i.Arises) : i.Reached := by
  induction h with
  | initial => exact .initial
  | newEnvironment _ ih => exact ih.newEnvironment
  | restoreSelf _ env ih => exact ih.restoreSelf env
  | rawGet _ _ _ ih => exact ih.rawGet _ _
  | rawSet _ _ _ _ ih => exact ih.rawSet _ _ _
  | index _ _ _ ih => exact ih.index _ _
  | setIndex _ _ _ _ ih => exact ih.setIndex _ _ _
  | textOf _ _ ih => exact ih.textOf _
  | compile _ source name _ ih => exact ih.compile source name _
  | protect _ _ ih => exact ih.protect _
  | evaluate _ e env code ih => exact ih.evaluate e env code

theorem Made.ne (h : i.Made v) (hn : i.evaluations < n) : v ≠ .builtin (.capture n) :=
  fun heq => Nat.not_le.2 hn (h n heq)

/-- No value anywhere is the function of the evaluation with this number. -/
def without (n : Nat) : Invariant :=
  Store.holding (· ≠ .builtin (.capture n))

theorem standing_without (n : Nat) : (without n).Standing :=
  Store.standing_holding fun _ h => h n

/-- No value in a state that arises is the function of an evaluation to come. -/
theorem Arises.keeps (h : i.Arises) (hn : i.evaluations < n) : i.Keeps (without n) := by
  have hI := standing_without n
  induction h with
  | initial => exact keeps_initial hI
  | newEnvironment _ ih => exact (ih hn).newEnvironment hI
  | restoreSelf _ env ih => exact (ih hn).restoreSelf hI.toLasting env
  | rawGet _ htable hkey ih => exact (ih hn).rawGet hI.toLasting (htable.ne hn) (hkey.ne hn)
  | rawSet _ htable hkey hv ih => exact (ih hn).rawSet hI.toLasting (htable.ne hn) (hkey.ne hn) (hv.ne hn)
  | index _ htable hkey ih => exact (ih hn).index hI.toLasting (htable.ne hn) (hkey.ne hn)
  | setIndex _ htable hkey hv ih => exact (ih hn).setIndex hI.toLasting (htable.ne hn) (hkey.ne hn) (hv.ne hn)
  | textOf _ hv ih => exact (ih hn).textOf hI.toLasting (hv.ne hn)
  | compile _ source name henv ih =>
    rw [evaluations_compile] at hn
    exact ((ih hn).compile hI.toLasting source name (henv.ne hn)).1
  | @protect i f _ hf ih =>
    rw [protect_snd] at hn
    exact ((ih hn).protect hI.toLasting (hf.ne hn)).1
  | @evaluate i _ e env code ih =>
    rcases hcompile : e.compile i env code with ⟨message | f, i₁, notes⟩
    · have hstate := Evaluator.state_evaluate_of_refuses ⟨message, congrArg Prod.fst hcompile⟩
      rw [hstate, Evaluator.evaluations_compile] at hn
      exact Evaluator.keeps_evaluate hI (ih hn) e env code fun f i₁ notes h => by rw [hcompile] at h; cases h
    · rw [Evaluator.evaluations_evaluate hcompile] at hn
      refine Evaluator.keeps_evaluate hI (ih (Nat.lt_of_succ_lt hn)) e env code fun f' i₁' notes' h => ?_
      have hcount := e.evaluations_compile i env code
      rw [h] at hcount
      intro heq
      cases heq
      exact absurd hn (by rw [← hcount]; exact Nat.lt_irrefl _)

/-- What a table holds is not the function of the next evaluation. -/
theorem Arises.rawGet_ne_recorder (h : i.Arises) (t : Nat) (k : Lua.Value) : i.store.rawGet t k ≠ i.recorder :=
  (standing_without _).entry (h.keeps (Nat.lt_succ_self _)).store t k

end Interpreter

theorem Lua.Value.rawEq_builtin {v : Lua.Value} {b : Builtin} : v.rawEq (.builtin b) = true ↔ v = .builtin b := by
  cases v <;> simp [Value.rawEq]

namespace Evaluator

open Interpreter

variable {e : Evaluator} {i i₁ : Interpreter} {env : Nat} {code : String} {f : Lua.Value} {notes : List EvaluationNote}

/-! ## The field `print` -/

/-- The state in which what `print` was has been put back. -/
def released (i : Interpreter) (env : Nat) (f : Lua.Value) : Interpreter :=
  (runCaptured i env f).2.2

theorem arises_compile (h : i.Arises) (e : Evaluator) (env : Nat) (code : String) :
    (e.compile i env code).2.1.Arises := by
  obtain ⟨j, source, hj, -, hstate⟩ := e.compile_cases i env code
  rw [hstate]
  refine .compile ?_ source e.chunkName nofun
  rcases hj with rfl | ⟨source', rfl⟩
  · exact h
  · exact h.compile source' e.chunkName nofun

theorem valid_ended (h : i.Reached) (env : Nat) (f : Lua.Value) : (ended i env f).store.Valid := by
  have hI := Store.standing_wellFormed
  exact ((keeps_capturing hI trivial h.keeps_wellFormed env).protect hI.toLasting trivial).1.store

theorem rawGet_capturing (hvalid : i.store.Valid) (henv : env < i.store.tables.size) :
    (capturing i env).store.rawGet env printKey = i.recorder :=
  (Store.rawGet_rawSet (hvalid env) henv printKey i.recorder printKey).trans (if_pos rfl)

theorem changesOnly_capturing (hvalid : i.store.Valid) (env : Nat) :
    i.store.ChangesOnly env printKey (capturing i env).store :=
  have h := hvalid.changesOnly_rawSet env printKey i.recorder
  ⟨h.size, h.metatable, h.rawGet⟩

theorem changesOnly_released (h : i.Reached) (env : Nat) (f : Lua.Value) :
    (ended i env f).store.ChangesOnly env printKey (released i env f).store := by
  rw [released, store_runCaptured]
  split
  · exact (valid_ended h env f).changesOnly_rawSet _ _ _
  · exact ⟨rfl, fun _ => rfl, fun _ _ _ => rfl⟩

/-- What `print` was is put back if the run has left the function that records lines. -/
theorem rawGet_released (h : i.Reached) (hleft : (ended i env f).store.rawGet env printKey = i.recorder) :
    (released i env f).store.rawGet env printKey = i.store.rawGet env printKey := by
  have henv : env < (ended i env f).store.tables.size := Store.lt_of_rawGet_ne_nil (by rw [hleft]; nofun)
  rw [released, store_runCaptured, if_pos (Value.rawEq_builtin.2 hleft),
    Store.rawGet_rawSet (valid_ended h env f env) henv, if_pos rfl]

theorem store_released_of_ne (hleft : (ended i env f).store.rawGet env printKey ≠ i.recorder) :
    (released i env f).store = (ended i env f).store := by
  rw [released, store_runCaptured, if_neg fun heq => hleft (Value.rawEq_builtin.1 heq)]

/-! ## Texts of errors -/

/-- The snippet fails, and the making of its error's text runs a metamethod. -/
def RunsForText (e : Evaluator) (i : Interpreter) (env : Nat) (code : String) : Prop :=
  ∃ f i₁ notes vs, e.compile i env code = (.ok f, i₁, notes) ∧ (runCaptured i₁ env f).1 = (false, vs) ∧
    (∀ t, (released i₁ env f).shown (Operation.first vs) ≠ .text t) ∧
      Machine.RunsForText (released i₁ env f).store ((released i₁ env f).outward (Operation.first vs))

theorem store_textOf {v : Lua.Value} (h : ¬ Machine.RunsForText i.store v) : (i.textOf v).2.store = i.store :=
  Machine.store_run_tostring maxSteps h

theorem store_failure {v : Lua.Value}
    (h : (∀ t, i.shown v ≠ .text t) → ¬ Machine.RunsForText i.store (i.outward v)) :
    (failure i v).2.store = i.store := by
  rw [failure]
  split
  · rfl
  · rename_i htext
    exact store_textOf (h htext)

/-- After the run, only a metamethod that gives the text of an error changes anything. -/
theorem store_evaluate (hcompile : e.compile i env code = (.ok f, i₁, notes)) (h : ¬ e.RunsForText i env code) :
    (e.evaluate i env code).2.1.store = (released i₁ env f).store := by
  rw [state_evaluate_of_compile hcompile]
  rcases hrun : (runCaptured i₁ env f).1 with ⟨_ | _, vs⟩
  · rw [if_neg Bool.false_ne_true]
    exact store_failure fun htext hruns => h ⟨f, i₁, notes, vs, hcompile, hrun, htext, hruns⟩
  · rfl

/-! ## Evaluations -/

/-- What becomes of the field `print` of an environment when a snippet is evaluated there that compiles. -/
structure TakesBack (e : Evaluator) (i : Interpreter) (env : Nat) (code : String) (f : Lua.Value) (i₁ : Interpreter) :
    Prop where
  compiled : i₁.store.tables = i.store.tables
  /-- The run begins with the function that records lines. -/
  installed : (capturing i₁ env).store.rawGet env printKey = i₁.recorder
  beginning : i₁.store.ChangesOnly env printKey (capturing i₁ env).store
  /-- If the run leaves that function, what was there before is put back. -/
  restored : (ended i₁ env f).store.rawGet env printKey = i₁.recorder →
    (released i₁ env f).store.rawGet env printKey = i.store.rawGet env printKey
  /-- Anything else that the run leaves there stays. -/
  kept : (ended i₁ env f).store.rawGet env printKey ≠ i₁.recorder →
    (released i₁ env f).store.rawGet env printKey = (ended i₁ env f).store.rawGet env printKey
  gone : (released i₁ env f).store.rawGet env printKey ≠ i₁.recorder
  ending : (ended i₁ env f).store.ChangesOnly env printKey (released i₁ env f).store
  lasting : ¬ e.RunsForText i env code → (e.evaluate i env code).2.1.store = (released i₁ env f).store

theorem takesBack (hi : i.Arises) (henv : env < i.store.tables.size)
    (hcompile : e.compile i env code = (.ok f, i₁, notes)) : e.TakesBack i env code f i₁ := by
  have htables := e.tables_compile i env code
  have hi₁ := arises_compile hi e env code
  rw [hcompile] at htables hi₁
  have hvalid : i₁.store.Valid := hi₁.reached.valid
  have hprevious : i₁.store.rawGet env printKey = i.store.rawGet env printKey :=
    Store.rawGet_of_tables_eq htables env printKey
  have hrestored : (ended i₁ env f).store.rawGet env printKey = i₁.recorder →
      (released i₁ env f).store.rawGet env printKey = i.store.rawGet env printKey :=
    fun hleft => (rawGet_released hi₁.reached hleft).trans hprevious
  have hkept : (ended i₁ env f).store.rawGet env printKey ≠ i₁.recorder →
      (released i₁ env f).store.rawGet env printKey = (ended i₁ env f).store.rawGet env printKey :=
    fun hleft => by rw [store_released_of_ne hleft]
  refine ⟨htables, rawGet_capturing hvalid (by rwa [htables]), changesOnly_capturing hvalid env, hrestored, hkept, ?_,
    changesOnly_released hi₁.reached env f, store_evaluate hcompile⟩
  by_cases hleft : (ended i₁ env f).store.rawGet env printKey = i₁.recorder
  · rw [hrestored hleft, ← hprevious]
    exact hi₁.rawGet_ne_recorder env printKey
  · rwa [hkept hleft]

theorem tables_evaluate_of_refuses (h : e.Refuses i env code) :
    (e.evaluate i env code).2.1.store.tables = i.store.tables := by
  rw [state_evaluate_of_refuses h, tables_compile]

/-! ## Sequences of evaluations -/

/-- The state after snippets, each of them evaluated in an environment. -/
def evaluateAll (e : Evaluator) (i : Interpreter) : List (Nat × String) → Interpreter
  | [] => i
  | (env, code) :: snippets => e.evaluateAll (e.evaluate i env code).2.1 snippets

/-- The run of a snippet leaves the value of a key as it is at the beginning, and so does the making of the text of the
snippet's error. -/
def Leaves (e : Evaluator) (i : Interpreter) (env : Nat) (code : String) (t : Nat) (k : Lua.Value) : Prop :=
  ∀ f i₁ notes, e.compile i env code = (.ok f, i₁, notes) →
    (ended i₁ env f).store.rawGet t k = (capturing i₁ env).store.rawGet t k ∧
      (e.evaluate i env code).2.1.store.rawGet t k = (released i₁ env f).store.rawGet t k

/-- All snippets leave the value of a key, each in the state in which it is evaluated. -/
def LeaveAll (e : Evaluator) (t : Nat) (k : Lua.Value) (i : Interpreter) : List (Nat × String) → Prop
  | [] => True
  | (env, code) :: snippets => e.Leaves i env code t k ∧ e.LeaveAll t k (e.evaluate i env code).2.1 snippets

/-- A snippet that leaves the field `print` of an environment has not changed it once it is evaluated, in this
environment or in another one. -/
theorem rawGet_evaluate_of_leaves {env' : Nat} (hi : i.Arises) (h : e.Leaves i env' code env printKey) :
    (e.evaluate i env' code).2.1.store.rawGet env printKey = i.store.rawGet env printKey := by
  rcases hcompile : e.compile i env' code with ⟨message | f, i₁, notes⟩
  · exact Store.rawGet_of_tables_eq (tables_evaluate_of_refuses ⟨message, congrArg Prod.fst hcompile⟩) env printKey
  · obtain ⟨hrun, htext⟩ := h f i₁ notes hcompile
    have htables := e.tables_compile i env' code
    have hi₁ := arises_compile hi e env' code
    rw [hcompile] at htables hi₁
    rw [htext, ← Store.rawGet_of_tables_eq htables]
    by_cases hsame : env = env'
    · subst hsame
      by_cases henv : env < i₁.store.tables.size
      · exact rawGet_released hi₁.reached (hrun.trans (rawGet_capturing hi₁.reached.valid henv))
      · -- there is no such table, so the field cannot be set
        have hcapturing : (capturing i₁ env).store.rawGet env printKey = i₁.store.rawGet env printKey :=
          congrArg (Table.get · printKey) (Store.table_rawSet_of_le (Nat.le_of_not_lt henv) printKey i₁.recorder)
        have hleft := hrun.trans hcapturing
        rw [store_released_of_ne (hleft ▸ hi₁.rawGet_ne_recorder env printKey), hleft]
    · rw [(changesOnly_released hi₁.reached env' f).rawGet env printKey (.inl hsame), hrun,
        (changesOnly_capturing hi₁.reached.valid env').rawGet env printKey (.inl hsame)]

theorem rawGet_evaluateAll (hi : i.Arises) {snippets : List (Nat × String)} (h : e.LeaveAll env printKey i snippets) :
    (e.evaluateAll i snippets).store.rawGet env printKey = i.store.rawGet env printKey := by
  induction snippets generalizing i with
  | nil => rfl
  | cons snippet snippets ih =>
    obtain ⟨env', code⟩ := snippet
    exact (ih (hi.evaluate e env' code) h.2).trans (rawGet_evaluate_of_leaves hi h.1)

/-- The function that records the lines of an evaluation is in the field `print` of the environment when the run of the
snippet begins, and not after it: then the field is what it was, or what the run has put there, and it stays so unless a
metamethod gives the text of an error. The evaluation itself changes nothing else in tables, and nothing at all if the
snippet does not compile. Snippets that leave the field do not change it, however many they are. -/
theorem print_taken_back (hi : i.Arises) (henv : env < i.store.tables.size) (e : Evaluator) :
    (∀ code, (e.Refuses i env code → (e.evaluate i env code).2.1.store.tables = i.store.tables) ∧
      ∀ f i₁ notes, e.compile i env code = (.ok f, i₁, notes) → e.TakesBack i env code f i₁) ∧
    ∀ snippets, e.LeaveAll env printKey i snippets →
      (e.evaluateAll i snippets).store.rawGet env printKey = i.store.rawGet env printKey :=
  ⟨fun _ => ⟨tables_evaluate_of_refuses, fun _ _ _ => takesBack hi henv⟩, fun _ => rawGet_evaluateAll hi⟩

/-- A snippet that keeps the function elsewhere: the field `print` is missing again. -/
theorem print_taken_back_saved :
    let i := ({} : Interpreter).newEnvironment
    let e : Evaluator := {}
    let i' := (e.evaluate i.2 i.1 "saved = print").2.1
    i'.store.rawGet i.1 printKey = i.2.store.rawGet i.1 printKey ∧ i.2.store.rawGet i.1 printKey = .nil ∧
      i'.store.rawGet i.1 (.ofString "saved") = i.2.recorder := by
  intro i e i'
  have henv : i.1 < i.2.store.tables.size := by decide +kernel
  refine ⟨(print_taken_back (.newEnvironment .initial) henv e).2 [(i.1, "saved = print")] ⟨?_, trivial⟩, ?_, ?_⟩
  · intro f i₁ notes hcompile
    have hf : (e.compile i.2 i.1 "saved = print").1.toOption = some (.closure 0) := by decide +kernel
    rw [hcompile] at hf
    obtain rfl := Option.some.inj hf
    obtain rfl : (e.compile i.2 i.1 "saved = print").2.1 = i₁ := by rw [hcompile]
    constructor
    · decide +kernel
    · decide +kernel
  · decide +kernel
  · decide +kernel

end Evaluator

end Scratchpad
