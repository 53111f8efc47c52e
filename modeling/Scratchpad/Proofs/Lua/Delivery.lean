import Scratchpad.Proofs.Lua.Closed
import Scratchpad.Proofs.Lua.Ending

/-!
# What computations deliver

A computation that runs in a machine `Delivers` a value, and leaves the machine in another state, or `Raises` an error;
either is said for all that may follow it. Main statement: in the main program, outside of handlers, an expression
delivers a value, raises an error or goes on for ever, whatever follows it (`indifferent_evalList`).
-/

namespace Scratchpad.Lua.Machine

variable {α β : Type} {m m' m₁ m₂ : Machine} {c : Comp α} {f : α → Comp β} {a : α} {b : β} {e : Value} {i j : Nat}

/-- After `i` steps the computation has yielded `a`, and what follows it runs in `m'`. -/
def Delivers (m : Machine) (c : Comp α) (i : Nat) (a : α) (m' : Machine) : Prop :=
  ∀ k x, run (i + x) m (c k) = run x m' (k a)

/-- After `i` steps the computation has raised an error, which passes to the frames of `m`. -/
def Raises (m : Machine) (c : Comp α) (i : Nat) (e : Value) (m' : Machine) : Prop :=
  ∀ k x, run (i + x) m (c k) = runNext x (unwind m' e m.frames)

/-- The computation never gives control to what follows it, and raises no error. -/
def Stays (m : Machine) (c : Comp α) : Prop :=
  ∀ k n, (run n m (c k)).2 = none

/-! ## Steps one after another -/

theorem delivers_pure (m : Machine) (a : α) : m.Delivers (pure a) 0 a m := fun k x => by
  rw [Nat.zero_add]
  rfl

theorem Delivers.bind (h : m.Delivers c i a m₁) (h' : m₁.Delivers (f a) j b m₂) :
    m.Delivers (c >>= f) (i + j) b m₂ := fun k x => by
  rw [Nat.add_assoc]
  exact (h (fun a => f a k) (j + x)).trans (h' k x)

theorem Delivers.raises (h : m.Delivers c i a m₁) (hframes : m₁.frames = m.frames) (h' : m₁.Raises (f a) j e m₂) :
    m.Raises (c >>= f) (i + j) e m₂ := fun k x => by
  rw [Nat.add_assoc, ← hframes]
  exact (h (fun a => f a k) (j + x)).trans (h' k x)

theorem Raises.bind (h : m.Raises c i e m') (f : α → Comp β) : m.Raises (c >>= f) i e m' :=
  fun k x => h (fun a => f a k) x

theorem delivers_read (m : Machine) (f : Store → α) : m.Delivers (Comp.read f) 1 (f m.store) m := fun k x => by
  rw [Nat.add_comm, run_succ]
  rfl

theorem delivers_update (m : Machine) (f : Store → Store) :
    m.Delivers (Comp.update f) 1 () { m with store := f m.store } := fun k x => by
  rw [Nat.add_comm, run_succ]
  rfl

/-- What makes an object reads its number first. -/
theorem delivers_make (m : Machine) (g : Store → α) (f : Store → Store)
    (hc : ∀ k, c k = .query fun s => .update f (k (g s))) : m.Delivers c 2 (g m.store) { m with store := f m.store } :=
  fun k x => by
    rw [hc, Nat.add_comm, run_succ]
    exact run_succ x m (.update f (k (g m.store)))

theorem delivers_newTable (m : Machine) (t : Table) :
    m.Delivers (Comp.newTable t) 2 (.table m.store.tables.size) { m with store := m.store.pushTable t } :=
  delivers_make m (fun s => Value.table s.tables.size) (fun s => s.pushTable t) fun _ => rfl

theorem delivers_newClosure (m : Machine) (c : Closure) :
    m.Delivers (Comp.newClosure c) 2 (.closure m.store.closures.size) { m with store := m.store.pushClosure c } :=
  delivers_make m (fun s => Value.closure s.closures.size) (fun s => s.pushClosure c) fun _ => rfl

theorem delivers_newCells (m : Machine) (vs : List Value) :
    m.Delivers (Comp.newCells vs) 2 ((List.range vs.length).map (m.store.cells.size + ·))
      { m with store := m.store.pushCells vs } :=
  delivers_make m (fun s => (List.range vs.length).map (s.cells.size + ·)) (fun s => s.pushCells vs) fun _ => rfl

/-! ## Uniqueness -/

/-- A loop without an end. -/
def forever : Prog :=
  .again (.whileLoop (.bool true) [] ⟨[], [], []⟩)

theorem run_forever (n : Nat) (m : Machine) : run n m forever = (m, none) := by
  induction n with
  | zero => rfl
  | succ n ih => exact ih

/-- A computation leaves one state at most. -/
theorem Delivers.unique {a' : α} (h : m.Delivers c i a m₁) (h' : m.Delivers c j a' m₂) : m₁ = m₂ := by
  have hrun := h (fun _ => forever) j
  rw [Nat.add_comm, h' (fun _ => forever) i, run_forever, run_forever] at hrun
  exact (congrArg Prod.fst hrun).symm

/-! ## Computations that do not look ahead -/

/-- In the main program, outside of handlers, the computation has one of three outcomes, whatever follows it. What it
delivers, and the machine that it leaves, satisfy `P`. -/
def Outcome (m : Machine) (c : Comp α) (P : α → Machine → Prop) : Prop :=
  m.Stays c ∨ (∃ i a m', m.Delivers c i a m' ∧ m'.Main ∧ m'.frames = m.frames ∧ P a m') ∨
    ∃ i e m', m.Raises c i e m' ∧ m'.Main

theorem Outcome.of_delivers {P : α → Machine → Prop} {s : Store} (h : m.Delivers c i a { m with store := s })
    (hm : m.Main) (hP : P a { m with store := s }) : m.Outcome c P :=
  .inr (.inl ⟨i, a, _, h, hm, rfl, hP⟩)

theorem Outcome.imp {P Q : α → Machine → Prop} (h : m.Outcome c P) (himp : ∀ a m', P a m' → Q a m') :
    m.Outcome c Q :=
  h.imp_right fun h => h.imp_left fun ⟨i, a, m', hdelivers, hm', hframes, hP⟩ =>
    ⟨i, a, m', hdelivers, hm', hframes, himp a m' hP⟩

theorem Outcome.bind {P : α → Machine → Prop} {Q : β → Machine → Prop} (h : m.Outcome c P)
    (h' : ∀ a m', m'.Main → m'.frames = m.frames → P a m' → m'.Outcome (f a) Q) : m.Outcome (c >>= f) Q := by
  rcases h with hstays | ⟨i, a, m₁, h₁, hm₁, hframes₁, hP⟩ | ⟨i, e, m₁, h₁, hm₁⟩
  · exact .inl fun k n => hstays (fun a => f a k) n
  · rcases h' a m₁ hm₁ hframes₁ hP with hstays | ⟨j, b, m₂, h₂, hm₂, hframes₂, hQ⟩ | ⟨j, e, m₂, h₂, hm₂⟩
    · refine .inl fun k n => ?_
      -- an end would still be one after more steps
      rcases hrun : run n m ((c >>= f) k) with ⟨m', _ | r⟩
      · rfl
      · have hnone := hstays k n
        rw [← h₁ (fun a => f a k) n, Nat.add_comm i n] at hnone
        rw [show c (fun a => f a k) = (c >>= f) k from rfl, run_add hrun i] at hnone
        cases hnone
    · exact .inr (.inl ⟨i + j, b, m₂, h₁.bind h₂, hm₂, hframes₂.trans hframes₁, hQ⟩)
    · exact .inr (.inr ⟨i + j, e, m₂, h₁.raises hframes₁ h₂, hm₂⟩)
  · exact .inr (.inr ⟨i, e, m₁, h₁.bind f, hm₁⟩)

/-- In the main program, outside of handlers, the computation has one of three outcomes. -/
def Indifferent (c : Comp α) : Prop :=
  ∀ m : Machine, m.Main → handlerOf m.frames = none → m.Outcome c fun _ _ => True

/-- What delivers in the next step or so is indifferent. -/
theorem Indifferent.of_delivers (h : ∀ m : Machine, ∃ i a s, m.Delivers c i a { m with store := s }) :
    Indifferent c := fun m hm _ =>
  let ⟨_, _, _, hdelivers⟩ := h m
  .of_delivers hdelivers hm trivial

theorem Indifferent.bind (hc : Indifferent c) (hf : ∀ a, Indifferent (f a)) : Indifferent (c >>= f) :=
  fun m hm hh => (hc m hm hh).bind fun a m₁ hm₁ hframes₁ _ => hf a m₁ hm₁ (by rw [hframes₁]; exact hh)

theorem raises_fail (hh : handlerOf m.frames = none) (e : Value) : m.Raises (Comp.fail e : Comp α) 1 e m :=
  fun k x => by
    rw [Nat.add_comm, run_succ]
    change runNext x (m.raise e) = _
    rw [raise, hh]

theorem indifferent_fail (e : Value) : Indifferent (Comp.fail e : Comp α) :=
  fun m hm hh => .inr (.inr ⟨1, e, m, raises_fail hh e, hm⟩)

theorem indifferent_call (f : Value) (args : List Value) (site : Site) : Indifferent (Comp.call f args site) := by
  intro m hm hh
  have hstep : ∀ k x, run (x + 1) m (Comp.call f args site k) = runNext x (m.call f args site true k) :=
    fun k x => run_succ x m _
  by_cases hstays : m.Stays (Comp.call f args site)
  · exact .inl hstays
  · obtain ⟨k, hk⟩ := Classical.not_forall.1 hstays
    obtain ⟨n, hn⟩ := Classical.not_forall.1 hk
    obtain ⟨n, rfl⟩ : ∃ n', n = n' + 1 := by
      cases n with
      | zero => exact absurd rfl hn
      | succ n => exact ⟨n, rfl⟩
    rcases runNext_call_cases hm hh n f args site true with hnone | ⟨i, m', vs, -, hm', hrun⟩ | ⟨i, m', e, -, hm', hrun⟩
    · rw [hstep, hnone] at hn
      exact absurd rfl hn
    · refine .inr (.inl ⟨i + 1, vs, { m' with frames := m.frames }, fun k x => ?_, hm', rfl, trivial⟩)
      rw [Nat.add_right_comm, hstep, hrun]
    · refine .inr (.inr ⟨i + 1, e, m', fun k x => ?_, hm'⟩)
      rw [Nat.add_right_comm, hstep, hrun]

theorem indifferent_closed : Comp.Closed .vacuous fun α _ (c : Comp α) => Indifferent c where
  pure {_ _ a} _ := .of_delivers fun m => ⟨0, a, m.store, delivers_pure m a⟩
  bind hc hf := hc.bind fun a => hf a (Invariant.all_vacuous a)
  fail _ := indifferent_fail _
  read {_ _ f} _ := .of_delivers fun m => ⟨1, f m.store, m.store, delivers_read m f⟩
  call _ _ site := indifferent_call _ _ site
  setEntry _ _ _ := .of_delivers fun m => ⟨1, (), _, delivers_update m _⟩
  fillItems _ _ := .of_delivers fun m => ⟨1, (), _, delivers_update m _⟩
  construct _ _ := .of_delivers fun m => ⟨2, _, _, delivers_newTable m _⟩
  newClosure c := .of_delivers fun m => ⟨2, _, _, delivers_newClosure m c⟩

theorem indifferent_evalList (ctx : Context) (es : List Expr) : Indifferent (Meaning.evalList ctx es) :=
  indifferent_closed.evalList Invariant.sound_vacuous (Invariant.all_vacuous ctx) es

/-! ## Programs that succeed -/

section Programs

variable {store : Store} {threads : Array Thread} {site : Site} {n : Nat} {p : Prog} {vs : List Value} {mEnd : Machine}

/-- The machine in a program that was called from outside so that its errors are caught. -/
def inProgram (store : Store) (threads : Array Thread) (site : Site) : Machine :=
  { inPcall store threads site with
    frames := .call { yieldable := true } (Depth.enter (Depth.enter {} site) { yieldable := true }) .done ::
      (inPcall store threads site).frames }

/-- The run is that of a protected program, and the program succeeds with values. -/
def Succeeds (n : Nat) (m : Machine) (p : Prog) (vs : List Value) (mEnd : Machine) : Prop :=
  run n m p = (mEnd, some (.ok (.bool true :: vs)))

theorem tooDeep?_program (site : Site) : tooDeep? 1 (Depth.enter {} site)
    (Depth.enter (Depth.enter {} site) { yieldable := true }) = none := by
  have hcalls : (Depth.enter (Depth.enter {} site) { yieldable := true }).calls ≠ maxCalls := by
    simp [Depth.enter, maxCalls]
  have hnested : 1 + (Depth.enter (Depth.enter {} site) { yieldable := true }).nested ≠ maxNested := by
    simp only [Depth.enter, maxNested]
    split <;> split <;> omega
  simp [tooDeep?, hcalls, hnested]

/-- A protected call of a program from outside runs the program after two steps. -/
theorem run_pcall_closure {id : Nat} {c : Closure} (h : store.closure? id = some c) (n : Nat) :
    run (n + 2) { store, threads } (.call (.builtin (.lib .pcall)) [.closure id] site .done) =
      run n (inProgram store threads site) (Meaning.invoke c []) := by
  have hcall : (inPcall store threads site).call (.closure id) [] { yieldable := true } true .done =
      .run (inProgram store threads site) (Meaning.invoke c []) := by
    have hresolve : resolve (inPcall store threads site).store maxCallChain (.closure id) [] = .ok (.closure id, []) := rfl
    have hdepth : depthOf (inPcall store threads site).frames = Depth.enter {} site := rfl
    have hbase : (inPcall store threads site).base = 1 := rfl
    have hbody : body (inPcall store threads site).store (.closure id) [] = Meaning.invoke c [] := by
      have hclosure : (inPcall store threads site).store.closure? id = some c := h
      simp only [body, hclosure]
    simp only [call, hresolve, enter, hdepth, hbase, tooDeep?_program, if_true, hbody]
    rfl
  rw [run_succ, step_call_builtin]
  change run (n + 1) _ _ = _
  rw [run_succ, step_pcall, hcall]
  rfl

/-- A program that succeeds raises no error and comes to an end. -/
theorem Outcome.of_succeeds {P : α → Machine → Prop} {k : α → Prog} (h : m.Outcome c P)
    (hframes : m.frames = (inProgram store threads site).frames) (hrun : Succeeds n m (c k) vs mEnd) :
    ∃ i a m', m.Delivers c i a m' ∧ m'.Main ∧ m'.frames = m.frames ∧ P a m' ∧ Succeeds n m' (k a) vs mEnd := by
  rcases h with hstays | ⟨i, a, m', hdelivers, hm', hframes', hP⟩ | ⟨i, e, m', hraises, hm'⟩
  · have hnone := hstays k n
    rw [hrun] at hnone
    cases hnone
  · refine ⟨i, a, m', hdelivers, hm', hframes', hP, ?_⟩
    rw [Succeeds, ← hdelivers, Nat.add_comm]
    exact run_add hrun i
  · -- the error is caught, and it is what the run ends with
    have hmore := run_add (run_add hrun 3) i
    rw [Nat.add_comm, hraises, hframes] at hmore
    have hcaught : (runNext (n + 3) (unwind m' e (inProgram store threads site).frames)).2 =
        some (.ok [.bool false, e]) := run_done_inLibrary hm' site [.bool false, e] (n + 1)
    rw [hmore] at hcaught
    cases hcaught

/-- A program that returns ends in four steps. -/
theorem run_done_inProgram (hm : m.Main) (hframes : m.frames = (inProgram store threads site).frames) (vs : List Value)
    (n : Nat) : run (n + 4) m (.done vs) = ({ m with frames := [] }, some (.ok (.bool true :: vs))) := by
  obtain ⟨store, threads, thread, base, frames, waiting⟩ := m
  obtain ⟨rfl, rfl⟩ := hm
  obtain rfl : frames = _ := hframes
  rfl

/-- The end of a program that returns. -/
theorem Succeeds.done {vs' : List Value} (hm : m.Main) (hframes : m.frames = (inProgram store threads site).frames)
    (h : Succeeds n m (.done vs') vs mEnd) : vs = vs' ∧ mEnd = { m with frames := [] } := by
  have hmore := run_add h 4
  rw [run_done_inProgram hm hframes] at hmore
  cases hmore
  exact ⟨rfl, rfl⟩

end Programs

end Scratchpad.Lua.Machine
