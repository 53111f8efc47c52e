import Scratchpad.Proofs.Lua.Call

/-!
# How calls end

`Ends m p r` says that a run comes to an end with the values or the error `r`. More steps do not change the end of a
run (`run_add`), so there is one end at most (`Ends.unique`). Main statements, on the main program:

- a call whose errors no handler sees comes back with values or raises an error, whatever follows it
  (`runNext_call_cases`);
- a protected call never raises an error: it ends in the truth of its success, with its values or its error
  (`run_pcall`);
- the making of a text fails just if the value has a metamethod for it that gives no text (`run_tostring`);
- it leaves the store as it is, unless it runs such a metamethod (`store_run_tostring`).
-/

namespace Scratchpad.Lua.Machine

variable {m m' : Machine} {p : Prog} {r : Except Value (List Value)} {n : Nat}

/-! ## The end of a run -/

/-- The run of a computation comes to an end with `r`. -/
def Ends (m : Machine) (p : Prog) (r : Except Value (List Value)) : Prop :=
  ∃ n m', run n m p = (m', some r)

/-- More steps do not change the end of a run. -/
theorem run_add (h : run n m p = (m', some r)) (extra : Nat) : run (n + extra) m p = (m', some r) := by
  induction n generalizing m p with
  | zero => cases h
  | succ n ih =>
    rw [run_succ] at h
    rw [Nat.succ_add, run_succ]
    cases hstep : m.step p with
    | run m₁ p₁ =>
      rw [hstep] at h
      exact ih h
    | stop m₁ r₁ =>
      rw [hstep] at h
      exact h

theorem Ends.unique {r' : Except Value (List Value)} (h : Ends m p r) (h' : Ends m p r') : r = r' := by
  obtain ⟨n, m₁, hn⟩ := h
  obtain ⟨n', m₂, hn'⟩ := h'
  have hmax := run_add hn n'
  rw [Nat.add_comm, run_add hn' n] at hmax
  cases hmax
  rfl

theorem Ends.of_run (h : (run n m p).2 = some r) : Ends m p r :=
  ⟨n, (run n m p).1, by rw [← h]⟩

/-! ## Calls of the main program -/

theorem Main.bottomThread (h : m.Main) : m.bottomThread = 0 := by
  rw [Machine.bottomThread, h.1]
  exact h.2

theorem call_cases (m : Machine) (f : Value) (args : List Value) (site : Site) (checked : Bool) :
    (∃ e, ∀ k, m.call f args site checked k = .run m (.fail e)) ∨
      ∃ p, ∀ k, m.call f args site checked k =
        .run { m with frames := .call site (Depth.enter (depthOf m.frames) site) k :: m.frames } p := by
  simp only [call, enter]
  rcases resolve m.store maxCallChain f args with f' | ⟨f', args'⟩
  · exact .inl ⟨_, fun _ => rfl⟩
  · dsimp only
    split
    · exact .inl ⟨_, fun _ => rfl⟩
    · exact .inr ⟨_, fun _ => rfl⟩

/-- A call in the main program, inside no protected call with a handler, either takes more steps than there are, or
comes back with values, or raises an error. Which of these, after how many steps and in which state, does not depend on
what follows. -/
theorem runNext_call_cases (hm : m.Main) (hh : handlerOf m.frames = none) (n : Nat) (f : Value) (args : List Value)
    (site : Site) (checked : Bool) :
    (∀ k, (runNext n (m.call f args site checked k)).2 = none) ∨
      (∃ (i : Nat) (m' : Machine) (vs : List Value), i ≤ n ∧ m'.Main ∧ ∀ k x,
        runNext (i + x) (m.call f args site checked k) = run x { m' with frames := m.frames } (k vs)) ∨
      ∃ (i : Nat) (m' : Machine) (e : Value), i ≤ n ∧ m'.Main ∧ ∀ k x,
        runNext (i + x) (m.call f args site checked k) = runNext x (unwind m' e m.frames) := by
  rcases call_cases m f args site checked with ⟨e, hcall⟩ | ⟨p, hcall⟩
  · rcases n with _ | n
    · exact .inl fun k => by rw [hcall, runNext, run]
    · refine .inr (.inr ⟨1, m, e, by omega, hm, fun k x => ?_⟩)
      rw [hcall, runNext, Nat.add_comm, run_succ, step, raise, hh]
  · have honto : ∀ k, { m with frames := .call site (Depth.enter (depthOf m.frames) site) k :: m.frames } =
        onto { m with frames := [] } (.call site (Depth.enter (depthOf m.frames) site) k :: m.frames) := fun k => by
      rw [onto_of_waiting_nil (m := { m with frames := [] }) hm.1, List.nil_append]
    have hbottom : bottomThread { m with frames := [] } = 0 := hm.bottomThread
    rcases run_onto (Depth.enter (depthOf m.frames) site) m.frames n site hbottom p with
      hnone | ⟨i, fate, hi, hmain, hdown, hrun⟩
    · exact .inl fun k => by rw [hcall, runNext, honto, hnone]
    · cases fate with
      | inside m' p' site' => exact absurd rfl (hdown m' p' site')
      | returned m' vs =>
        exact .inr (.inl ⟨i, m', vs, hi, hmain, fun k x => by rw [hcall, runNext, honto, hrun, Fate.next, runNext]⟩)
      | raised m' e =>
        exact .inr (.inr ⟨i, m', e, hi, hmain, fun k x => by rw [hcall, runNext, honto, hrun, Fate.next]⟩)

/-! ## Calls from outside -/

variable {store : Store} {threads : Array Thread}

/-- The machine in a function of the library that was called from outside. -/
def inLibrary (store : Store) (threads : Array Thread) (site : Site) : Machine :=
  { store, threads, frames := [.call site (Depth.enter {} site) .done] }

theorem resolve_builtin (s : Store) (b : Builtin) (args : List Value) :
    resolve s maxCallChain (.builtin b) args = .ok (.builtin b, args) := rfl

/-- A call from outside is not too deep. -/
theorem tooDeep?_outside (site : Site) : tooDeep? 1 {} (Depth.enter {} site) = none := by
  have hcalls : (Depth.enter {} site).calls ≠ maxCalls := by
    simp [Depth.enter, maxCalls]
  have hnested : 1 + (Depth.enter {} site).nested ≠ maxNested := by
    simp only [Depth.enter, maxNested]
    split <;> omega
  simp [tooDeep?, hcalls, hnested]

theorem step_call_builtin (b : Builtin) (args : List Value) (site : Site) :
    step { store, threads } (.call (.builtin b) args site .done) =
      .run (inLibrary store threads site) (Library.run b args .done) := by
  simp only [step, call, resolve_builtin, enter, depthOf, tooDeep?_outside, if_true]
  rfl

/-- The function that was called from outside returns in two steps. -/
theorem run_done_inLibrary (hm : m.Main) (site : Site) (vs : List Value) (n : Nat) :
    (run (n + 2) { m with frames := [.call site (Depth.enter {} site) .done] } (.done vs)).2 = some (.ok vs) := by
  obtain ⟨store, threads, thread, base, frames, waiting⟩ := m
  obtain ⟨rfl, rfl⟩ := hm
  rfl

/-- An error of the library ends the function that was called from outside. -/
theorem run_raiseHere_inLibrary (hm : m.Main) (site : Site) (message : Bytes) (k : Bytes → Prog) (n : Nat) :
    ∃ e, (run (n + 2) { m with frames := [.call site (Depth.enter {} site) .done] }
      (Library.raiseHere message k)).2 = some (.error e) := by
  obtain ⟨store, threads, thread, base, frames, waiting⟩ := m
  obtain ⟨rfl, rfl⟩ := hm
  exact ⟨_, rfl⟩

/-! ## Protected calls -/

/-- What follows a protected call from outside. -/
def afterPcall (ok : Bool) (vs : List Value) : Prog :=
  .done (.bool ok :: vs)

/-- The machine in a protected call from outside. -/
def inPcall (store : Store) (threads : Array Thread) (site : Site) : Machine :=
  { store, threads, frames := [.protect none afterPcall, .call site (Depth.enter {} site) .done] }

theorem step_pcall (f : Value) (site : Site) :
    step (inLibrary store threads site) (Library.run (.lib .pcall) [f] .done) =
      (inPcall store threads site).call f [] { yieldable := true } true .done := rfl

/-- A protected call ends in the truth of its success, with its values or its error. -/
theorem run_pcall (f : Value) (site : Site)
    (h : (run n { store, threads } (.call (.builtin (.lib .pcall)) [f] site .done)).2 = some r) :
    (∃ vs, r = .ok (.bool true :: vs)) ∨ ∃ e, r = .ok [.bool false, e] := by
  rcases n with _ | _ | n
  · cases h
  · rw [run_succ, step_call_builtin] at h
    cases h
  · rw [run_succ, step_call_builtin, runNext, run_succ, step_pcall] at h
    have hm : (inPcall store threads site).Main := ⟨rfl, rfl⟩
    rcases runNext_call_cases hm rfl n f [] { yieldable := true } true with
      hnone | ⟨i, m', vs, hi, hm', hrun⟩ | ⟨i, m', e, hi, hm', hrun⟩
    · rw [hnone] at h
      cases h
    · left
      obtain ⟨j, rfl⟩ := Nat.exists_eq_add_of_le hi
      rw [hrun] at h
      rcases j with _ | _ | _ | j
      · cases h
      · cases h
      · cases h
      · have hdone := run_done_inLibrary hm' site (.bool true :: vs) j
        exact ⟨vs, Option.some.inj (h.symm.trans hdone)⟩
    · right
      obtain ⟨j, rfl⟩ := Nat.exists_eq_add_of_le hi
      rw [hrun] at h
      rcases j with _ | _ | j
      · cases h
      · cases h
      · have hdone := run_done_inLibrary hm' site [.bool false, e] j
        exact ⟨e, Option.some.inj (h.symm.trans hdone)⟩

/-! ## Texts -/

/-- The metamethod of a value that gives its text, called by the library, gives none: the call ends in an error, or in
a value that is neither a string nor a number. -/
def GivesNoText (store : Store) (threads : Array Thread) (v : Value) : Prop :=
  let h := store.metamethod v (bytes "__tostring")
  h.isNil = false ∧ ∃ r, Ends (inLibrary store threads {}) (.call h [v] (Spot.native.metaSite "tostring") .done) r ∧
    ∀ vs, r = .ok vs → Operation.concatText? (Operation.first vs) = none

/-- What follows the call of a metamethod that gives a text. -/
def afterText (vs : List Value) : Prog :=
  match Operation.concatText? (Operation.first vs) with
  | some s => .done [.str s]
  | none => (Library.raiseHere (bytes "'__tostring' must return a string") : Comp Bytes) fun s => .done [.str s]

theorem textOf_prog (v : Value) :
    Library.run (.lib .tostring) [v] .done = .query fun s =>
      if (s.metamethod v (bytes "__tostring")).isNil then
        .query fun s => .done [.str (Operation.plainText (s.typeText v) v)]
      else .call (s.metamethod v (bytes "__tostring")) [v] (Spot.native.metaSite "tostring") afterText := by
  change Prog.query (fun s => (if (s.metamethod v (bytes "__tostring")).isNil then _ else _ : Comp Bytes) _) = _
  refine congrArg Prog.query (funext fun s => ?_)
  split
  · rfl
  · refine congrArg (Prog.call _ _ _) (funext fun vs => ?_)
    rw [afterText]
    cases hfirst : Operation.first vs <;> simp [hfirst] <;> rfl

/-- What the end of the making of a text is, if the metamethod has returned values. -/
theorem run_afterText (hm : m.Main) (site : Site) (vs : List Value)
    (h : (run n { m with frames := [.call site (Depth.enter {} site) .done] } (afterText vs)).2 = some r) :
    2 ≤ n ∧ match Operation.concatText? (Operation.first vs) with
      | some t => r = .ok [.str t]
      | none => ∃ e, r = .error e := by
  rw [afterText] at h
  cases htext : Operation.concatText? (Operation.first vs) with
  | some t =>
    rw [htext] at h
    rcases n with _ | _ | n
    · cases h
    · cases h
    · exact ⟨by omega, Option.some.inj (h.symm.trans (run_done_inLibrary hm site [.str t] n))⟩
  | none =>
    rw [htext] at h
    rcases n with _ | _ | n
    · cases h
    · cases h
    · obtain ⟨e, he⟩ := run_raiseHere_inLibrary hm site (bytes "'__tostring' must return a string")
        (fun s => .done [.str s]) n
      exact ⟨by omega, e, Option.some.inj (h.symm.trans he)⟩

/-- The call of the metamethod ends in an error just if the metamethod gives no text. -/
theorem run_metamethod {v : Value} (hnil : (store.metamethod v (bytes "__tostring")).isNil = false)
    (h : (run n (inLibrary store threads {}) (.call (store.metamethod v (bytes "__tostring")) [v]
      (Spot.native.metaSite "tostring") afterText)).2 = some r) :
    (GivesNoText store threads v ∧ ∃ e, r = .error e) ∨ (¬ GivesNoText store threads v ∧ ∃ t, r = .ok [.str t]) := by
  have hm : (inLibrary store threads {}).Main := ⟨rfl, rfl⟩
  rcases n with _ | n
  · cases h
  rw [run_succ, step] at h
  rcases runNext_call_cases hm rfl n (store.metamethod v (bytes "__tostring")) [v]
    (Spot.native.metaSite "tostring") true with hnone | ⟨i, m', vs, hi, hm', hrun⟩ | ⟨i, m', e, hi, hm', hrun⟩
  · rw [hnone] at h
    cases h
  · obtain ⟨j, rfl⟩ := Nat.exists_eq_add_of_le hi
    rw [hrun] at h
    obtain ⟨hj, htext⟩ := run_afterText hm' {} vs h
    -- the same call with nothing after it ends in the values
    have hends : Ends (inLibrary store threads {}) (.call (store.metamethod v (bytes "__tostring")) [v]
        (Spot.native.metaSite "tostring") .done) (.ok vs) := by
      obtain ⟨j, rfl⟩ := Nat.exists_eq_add_of_le' hj
      refine .of_run (n := i + (j + 2) + 1) ?_
      rw [run_succ, step, hrun]
      exact run_done_inLibrary hm' {} vs j
    split at htext
    · rename_i t ht
      refine .inr ⟨fun hno => ?_, t, htext⟩
      obtain ⟨-, r', hr', hnone⟩ := hno
      rw [hnone vs (hr'.unique hends)] at ht
      cases ht
    · rename_i ht
      refine .inl ⟨⟨hnil, .ok vs, hends, fun vs' hvs => ?_⟩, htext⟩
      cases hvs
      exact ht
  · obtain ⟨store', threads', thread, base, frames, waiting⟩ := m'
    obtain ⟨rfl, rfl⟩ := hm'
    obtain ⟨j, rfl⟩ := Nat.exists_eq_add_of_le hi
    rw [hrun] at h
    cases h
    refine .inl ⟨⟨hnil, .error e, .of_run (n := i + j + 1) ?_, by simp⟩, e, rfl⟩
    rw [run_succ, step, hrun]
    rfl

/-- The making of a text ends in an error just if the value has a metamethod for it that gives none. -/
theorem run_tostring (v : Value)
    (h : (run n { store, threads } (.call (.builtin (.lib .tostring)) [v] {} .done)).2 = some r) :
    (GivesNoText store threads v ∧ ∃ e, r = .error e) ∨ (¬ GivesNoText store threads v ∧ ∃ t, r = .ok [.str t]) := by
  have hm : (inLibrary store threads {}).Main := ⟨rfl, rfl⟩
  have hstore : (inLibrary store threads {}).store = store := rfl
  rcases n with _ | _ | n
  · cases h
  · rw [run_succ, step_call_builtin] at h
    cases h
  rw [run_succ, step_call_builtin, runNext, run_succ, textOf_prog] at h
  simp only [step, runNext, hstore] at h
  cases hnil : (store.metamethod v (bytes "__tostring")).isNil with
  | true =>
    refine .inr ⟨fun hno => absurd (hno.1.symm.trans hnil) Bool.false_ne_true, ?_⟩
    rw [hnil, if_pos rfl] at h
    rcases n with _ | _ | _ | n
    · cases h
    · cases h
    · cases h
    · exact ⟨_, Option.some.inj (h.symm.trans (run_done_inLibrary hm {} _ n))⟩
  | false =>
    rw [hnil, if_neg Bool.false_ne_true] at h
    exact run_metamethod hnil h

/-! ## Texts that run no metamethod -/

/-- The making of the text of a value calls a metamethod, and the call reaches a function. -/
def RunsForText (store : Store) (v : Value) : Prop :=
  let h := store.metamethod v (bytes "__tostring")
  h.isNil = false ∧ ∃ target, resolve store maxCallChain h [v] = .ok target

theorem store_run_done_inLibrary (site : Site) (vs : List Value) (n : Nat) :
    (run n (inLibrary store threads site) (.done vs)).1.store = store := by
  rcases n with _ | _ | n <;> rfl

theorem store_run_fail_inLibrary (site : Site) (e : Value) (n : Nat) :
    (run n (inLibrary store threads site) (.fail e)).1.store = store := by
  rcases n with _ | n <;> rfl

/-- The making of a text leaves the store, unless it runs a metamethod. -/
theorem store_run_tostring (n : Nat) {v : Value} (h : ¬ RunsForText store v) :
    (run n { store, threads } (.call (.builtin (.lib .tostring)) [v] {} .done)).1.store = store := by
  rcases n with _ | _ | n
  · rfl
  · rw [run_succ, step_call_builtin]
    rfl
  rw [run_succ, step_call_builtin, runNext, textOf_prog, run_succ]
  have hstore : (inLibrary store threads {}).store = store := rfl
  simp only [step, runNext, hstore]
  by_cases hnil : (store.metamethod v (bytes "__tostring")).isNil = true
  · rw [if_pos hnil]
    rcases n with _ | n
    · rfl
    · exact store_run_done_inLibrary {} _ n
  · rw [if_neg hnil]
    rcases n with _ | n
    · rfl
    rcases hresolve : resolve store maxCallChain (store.metamethod v (bytes "__tostring")) [v] with f | target
    · rw [run_succ, step, call, hstore, hresolve]
      exact store_run_fail_inLibrary {} _ n
    · exact absurd ⟨Bool.eq_false_iff.2 hnil, target, hresolve⟩ h

end Scratchpad.Lua.Machine
