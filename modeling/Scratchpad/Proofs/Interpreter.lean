import Scratchpad.Proofs.Evaluation
import Scratchpad.Proofs.Lua.Contents

/-!
# States of the interpreter

The states that the interpreter can get into from outside are `Reached`: by environments that are made, by access to
tables, and by programs that are compiled, run and evaluated, whatever they do. What programs keep, they all keep
(`Keeps`). Main statement: in all of them every table is a map (`Reached.valid`).
-/

namespace Scratchpad

open Lua

namespace Interpreter

variable {i : Interpreter} {p : Prog} {I : Invariant} {table key v : Lua.Value}

open HasValues

/-! ## Runs from outside -/

/-- The store satisfies the invariant, and the coroutines keep it. -/
structure Keeps (I : Invariant) (i : Interpreter) : Prop where
  store : I.store i.store
  threads : ∀ t ∈ i.threads, Machine.ThreadKeeps I t

theorem Keeps.withStore (h : i.Keeps I) {s : Lua.Store} (hs : I.store s) : Keeps I { i with store := s } :=
  ⟨hs, h.threads⟩

/-- The outside takes a coroutine that was never resumed for its function. -/
theorem Keeps.outward (h : i.Keeps I) (hv : I.value v) : I.value (i.outward v) := by
  unfold Interpreter.outward
  split
  · split
    · rename_i f hthread
      exact h.threads _ (Array.mem_of_getElem? hthread)
    · exact hv
  · exact hv

theorem keeps_initial (hI : I.Standing) : Keeps I {} where
  store := hI.initialStore
  threads t ht := by
    obtain rfl : t = .active := by simpa using ht
    trivial

theorem Keeps.newEnvironment (hI : I.Standing) (h : i.Keeps I) : i.newEnvironment.2.Keeps I := by
  refine ⟨hI.setEntry (hI.environment (hI.library h.store ?_) _) (hI.str _) (hI.table _) _, h.threads⟩
  exact List.forall_mem_cons.2 ⟨hI.plain nofun, List.forall_mem_singleton.2 (hI.plain nofun)⟩

theorem Keeps.restoreSelf (hI : I.Lasting) (h : i.Keeps I) (env : Nat) : (i.restoreSelf env).Keeps I :=
  h.withStore (hI.setEntry h.store (hI.str _) (hI.table _) env)

section Runs

variable (hI : I.Lasting) (h : i.Keeps I)

include hI h

theorem Keeps.run (hp : p.Keeps I) : (i.run p).2.Keeps I ∧ All I.value (i.run p).1 := by
  have hm : Machine.Keeps I { store := i.store, threads := i.threads } :=
    ⟨h.store, h.threads, Machine.framesKeep_nil, by simp⟩
  obtain ⟨hrun, hresult⟩ := Machine.keeps_run hI maxSteps hm hp
  obtain ⟨store, threads, environments, evaluations⟩ := i
  rcases hr : Machine.run maxSteps { store, threads } p with ⟨m, r⟩
  rw [hr] at hrun hresult
  simp only [Interpreter.run, hr]
  refine ⟨⟨hrun.store, hrun.threads⟩, ?_⟩
  cases r with
  | none => exact hI.str _
  | some r => exact hresult r rfl

theorem Keeps.ask (hp : p.Keeps I) : (i.ask p).2.Keeps I :=
  (h.run hI hp).1

theorem Keeps.protect {f : Lua.Value} (hf : I.value f) :
    (i.protect f).2.Keeps I ∧ All I.value (i.protect f).1.2 := by
  obtain ⟨hrun, hresult⟩ := h.run hI (p := .call (.builtin (.lib .pcall)) [f]
    { position := some ⟨Library.environmentChunk, Library.callLine⟩, yieldable := true } .done)
    ⟨hI.plain nofun, all_singleton hf, fun _ hvs => hvs⟩
  unfold Interpreter.protect
  dsimp only
  split
  · rename_i heq
    rw [heq] at hresult
    exact ⟨hrun, (List.forall_mem_cons.1 hresult).2⟩
  · exact ⟨hrun, all_nil⟩
  · rename_i heq
    rw [heq] at hresult
    exact ⟨hrun, all_singleton hresult⟩

theorem Keeps.rawGet (htable : I.value table) (hkey : I.value key) : (i.rawGet table key).2.Keeps I :=
  h.ask hI ⟨hI.plain nofun, all_cons htable (all_singleton hkey), fun _ hvs => hvs⟩

theorem Keeps.rawSet (htable : I.value table) (hkey : I.value key) (hv : I.value v) :
    (i.rawSet table key v).2.Keeps I :=
  h.ask hI ⟨hI.plain nofun, all_cons htable (all_cons hkey (all_singleton hv)), fun _ hvs => hvs⟩

omit h in
theorem value_orAbsent (hkey : I.value key) : I.value (orAbsent key) := by
  unfold orAbsent
  split
  · exact hI.plain nofun
  · exact hkey

theorem Keeps.index (htable : I.value table) (hkey : I.value key) : (i.index table key).2.Keeps I :=
  h.ask hI (((Comp.keeps_closed hI).index hI.toSound _ htable (value_orAbsent hI hkey) _).before _ fun _ hv =>
    all_singleton hv)

theorem Keeps.setIndex (htable : I.value table) (hkey : I.value key) (hv : I.value v) :
    (i.setIndex table key v).2.Keeps I :=
  h.ask hI (((Comp.keeps_closed hI).setIndex hI.toSound _ htable (value_orAbsent hI hkey) hv _).before _ fun _ _ =>
    all_nil)

theorem Keeps.textOf (hv : I.value v) : (i.textOf v).2.Keeps I :=
  h.ask hI (p := .call (.builtin (.lib .tostring)) [v] {} .done)
    ⟨hI.plain nofun, all_singleton hv, fun _ hvs => hvs⟩

theorem Keeps.compile (source name : String) {env : Lua.Value} (henv : I.value env) :
    (i.compile source name env).2.Keeps I ∧ All I.value (i.compile source name env).1 := by
  unfold Interpreter.compile
  dsimp only
  split
  · exact ⟨h, trivial⟩
  · split
    · exact ⟨h, trivial⟩
    · exact ⟨h.withStore (hI.pushClosure (hI.pushCells h.store (all_singleton henv)) _), hI.plain nofun⟩

end Runs

end Interpreter

namespace Evaluator

open HasValues

variable {i : Interpreter} {I : Invariant}

theorem keeps_compile (hI : I.Lasting) (h : i.Keeps I) (e : Evaluator) (env : Nat) (code : String) :
    (e.compile i env code).2.1.Keeps I ∧ All I.value (e.compile i env code).1 := by
  obtain ⟨j, source, hj, hresult, hstate⟩ := e.compile_cases i env code
  rw [hresult, hstate]
  have hjKeeps : j.Keeps I := by
    rcases hj with rfl | ⟨source', rfl⟩
    · exact h
    · exact (h.compile hI source' e.chunkName (hI.table env)).1
  exact hjKeeps.compile hI source e.chunkName (hI.table env)

theorem keeps_capturing (hI : I.Standing) (hcapture : I.value (.builtin (.capture (i.evaluations + 1))))
    (h : i.Keeps I) (env : Nat) : (capturing i env).Keeps I :=
  ⟨hI.run (hI.print (hI.setEntry h.store (hI.str _) hcapture env) []) _, h.threads⟩

/-- The run of a program whose printed lines are recorded. -/
theorem keeps_runCaptured (hI : I.Standing) (hcapture : I.value (.builtin (.capture (i.evaluations + 1))))
    (h : i.Keeps I) (env : Nat) {f : Lua.Value} (hf : I.value f) :
    (runCaptured i env f).2.2.Keeps I ∧ All I.value (runCaptured i env f).1.2 := by
  obtain ⟨hprotect, hvs⟩ := (keeps_capturing hI hcapture h env).protect hI.toLasting hf
  refine ⟨⟨?_, hprotect.threads⟩, hvs⟩
  rw [store_runCaptured]
  split
  · exact hI.setEntry hprotect.store (hI.str _) (hI.entry h.store env Interpreter.printKey) env
  · exact hprotect.store

theorem keeps_failure (hI : I.Lasting) (h : i.Keeps I) {v : Lua.Value} (hv : I.value v) : (failure i v).2.Keeps I := by
  unfold failure
  split
  · exact h
  · exact h.textOf hI (h.outward hv)

theorem keeps_evaluate (hI : I.Standing) (h : i.Keeps I) (e : Evaluator) (env : Nat) (code : String)
    (hcapture : ∀ f i₁ notes, e.compile i env code = (.ok f, i₁, notes) →
      I.value (.builtin (.capture (i₁.evaluations + 1)))) : (e.evaluate i env code).2.1.Keeps I := by
  have hcompile := keeps_compile hI.toLasting h e env code
  unfold evaluate
  split
  · rename_i heq
    rw [heq] at hcompile
    exact hcompile.1
  · rename_i f i₁ notes heq
    rw [heq] at hcompile
    obtain ⟨hcaptured, hvs⟩ := keeps_runCaptured hI (hcapture _ _ _ heq) hcompile.1 env hcompile.2
    split
    · rename_i hrun
      rw [hrun] at hcaptured
      exact hcaptured
    · rename_i hrun
      rw [hrun] at hcaptured hvs
      exact keeps_failure hI.toLasting hcaptured (hI.first hvs)

end Evaluator

/-! ## Reached states -/

/-- A state that the interpreter can get into. -/
inductive Interpreter.Reached : Interpreter → Prop where
  | initial : Reached {}
  | newEnvironment {i} (h : Reached i) : Reached i.newEnvironment.2
  | restoreSelf {i} (h : Reached i) (env : Nat) : Reached (i.restoreSelf env)
  | rawGet {i} (h : Reached i) (table key : Lua.Value) : Reached (i.rawGet table key).2
  | rawSet {i} (h : Reached i) (table key v : Lua.Value) : Reached (i.rawSet table key v).2
  | index {i} (h : Reached i) (table key : Lua.Value) : Reached (i.index table key).2
  | setIndex {i} (h : Reached i) (table key v : Lua.Value) : Reached (i.setIndex table key v).2
  | textOf {i} (h : Reached i) (v : Lua.Value) : Reached (i.textOf v).2
  | compile {i} (h : Reached i) (source name : String) (env : Lua.Value) : Reached (i.compile source name env).2
  | protect {i} (h : Reached i) (f : Lua.Value) : Reached (i.protect f).2
  | evaluate {i} (h : Reached i) (e : Evaluator) (env : Nat) (code : String) : Reached (e.evaluate i env code).2.1

namespace Interpreter

variable {i : Interpreter}

/-- What holds from the beginning, whatever the values are, holds in every state. -/
theorem Reached.keeps {I : Invariant} (hI : I.Standing) (hV : ∀ v, I.value v) (h : i.Reached) : i.Keeps I := by
  have hlasting := hI.toLasting
  induction h with
  | initial => exact keeps_initial hI
  | newEnvironment _ ih => exact ih.newEnvironment hI
  | restoreSelf _ env ih => exact ih.restoreSelf hlasting env
  | rawGet _ table key ih => exact ih.rawGet hlasting (hV _) (hV _)
  | rawSet _ table key v ih => exact ih.rawSet hlasting (hV _) (hV _) (hV _)
  | index _ table key ih => exact ih.index hlasting (hV _) (hV _)
  | setIndex _ table key v ih => exact ih.setIndex hlasting (hV _) (hV _) (hV _)
  | textOf _ v ih => exact ih.textOf hlasting (hV _)
  | compile _ source name env ih => exact (ih.compile hlasting source name (hV _)).1
  | protect _ f ih => exact (ih.protect hlasting (hV _)).1
  | evaluate _ e env code ih => exact Evaluator.keeps_evaluate hI ih e env code fun _ _ _ _ => hV _

theorem Reached.keeps_wellFormed (h : i.Reached) : i.Keeps Store.wellFormed :=
  h.keeps Store.standing_wellFormed fun _ => trivial

/-- In every state of the interpreter, every table is a map. -/
theorem Reached.valid (h : i.Reached) : i.store.Valid :=
  h.keeps_wellFormed.store

end Interpreter

end Scratchpad
