import Scratchpad.Lua.Machine

/-!
# Calls and what lies below them

The running computation does not look into the continuations of the frames below it. Fix the frame of a call in the
main program, with continuation `k`, and the frames `rest` below it. One step of whatever runs above that frame has one
of three fates, the same for all `k` (`step_onto`): it stays above the frame, it returns values to `k`, or it raises an
error that passes to `rest`. Main statement: a run either never comes down to the frame, or it does so after a number of
steps and with a fate that do not depend on `k` (`run_onto`).
-/

namespace Scratchpad.Lua.Machine

/-! ## Frames at the bottom -/

/-- Frames put below those of the last coroutine that waits, which is the main program. -/
def addWaiting (below : List Frame) : List Waiting → List Waiting
  | [] => []
  | [w] => [{ w with frames := w.frames ++ below }]
  | w :: v :: ws => w :: addWaiting below (v :: ws)

/-- The frames of the running coroutine, with others below them if it is the main program. -/
def framesOnto (below : List Frame) (waiting : List Waiting) (fs : List Frame) : List Frame :=
  match waiting with
  | [] => fs ++ below
  | _ :: _ => fs

/-- The machine with further frames below those of the main program. -/
def onto (m : Machine) (below : List Frame) : Machine :=
  { m with frames := framesOnto below m.waiting m.frames, waiting := addWaiting below m.waiting }

/-- The coroutine at the bottom: the one that runs if none waits, and else the one that waits longest. -/
def bottomThread (m : Machine) : Nat :=
  ((m.waiting.getLast?).map Waiting.thread).getD m.thread

/-- The main program runs. -/
def Main (m : Machine) : Prop :=
  m.waiting = [] ∧ m.thread = 0

/-- The machine after control went back to a waiting coroutine. -/
def popped (m : Machine) (w : Waiting) (ws : List Waiting) (state : Thread) : Machine :=
  ⟨m.store, m.threads.set! m.thread state, w.thread, w.base, w.frames, ws⟩

section Bottom

variable {m : Machine} {below : List Frame}

@[simp]
theorem onto_store : (m.onto below).store = m.store := rfl

@[simp]
theorem onto_threads : (m.onto below).threads = m.threads := rfl

@[simp]
theorem onto_thread : (m.onto below).thread = m.thread := rfl

@[simp]
theorem onto_base : (m.onto below).base = m.base := rfl

theorem bottomThread_popped {w : Waiting} {ws : List Waiting} (h : m.waiting = w :: ws) (state : Thread) :
    (m.popped w ws state).bottomThread = m.bottomThread := by
  cases ws with
  | nil => simp [bottomThread, popped, h]
  | cons v ws => simp [bottomThread, popped, h, List.getLast?_eq_some_getLast (List.cons_ne_nil v ws)]

theorem resumeWaiting_onto {w : Waiting} {ws : List Waiting} (h : m.waiting = w :: ws) (state : Thread) (ok : Bool)
    (vs : List Value) (fs : List Frame) :
    resumeWaiting { m.onto below with frames := fs } state ok vs =
      some (.run ((m.popped w ws state).onto below) (w.k ok vs)) := by
  cases ws <;> simp [resumeWaiting, onto, popped, h, addWaiting, framesOnto]

theorem onto_of_waiting_nil (h : m.waiting = []) : m.onto below = { m with frames := m.frames ++ below } := by
  simp only [onto, h, framesOnto, addWaiting]

theorem head_closes_addWaiting (waiting : List Waiting) :
    (addWaiting below waiting).head?.all (·.closes) = waiting.head?.all (·.closes) := by
  rcases waiting with _ | ⟨w, _ | ⟨v, ws⟩⟩ <;> rfl

end Bottom

/-! ## Fates -/

/-- What becomes of a step above the frame of a call. -/
inductive Fate where
  /-- The step stays above the frame, which may now belong to another call in the place of the first. -/
  | inside (m : Machine) (p : Prog) (site : Site)
  | returned (m : Machine) (vs : List Value)
  | raised (m : Machine) (e : Value)

section Fates

variable (d : Depth) (rest : List Frame)

/-- The fate as what follows the step, for a frame with continuation `k`. -/
def Fate.next (f : Fate) (k : List Value → Prog) : Next :=
  match f with
  | inside m p site => .run (m.onto (.call site d k :: rest)) p
  | returned m vs => .run { m with frames := rest } (k vs)
  | raised m e => unwind m e rest

/-- The main program is at the bottom, and it runs when the call ends. -/
def Fate.InMain : Fate → Prop
  | inside m _ _ => m.bottomThread = 0
  | returned m _ => m.Main
  | raised m _ => m.Main

/-- What follows a step for each continuation is one fate. -/
def Uniform (next : (List Value → Prog) → Next) : Prop :=
  ∃ f : Fate, f.InMain ∧ ∀ k, next k = f.next d rest k

end Fates

section Steps

variable {m : Machine} {d : Depth} {rest : List Frame} {site : Site}

theorem uniform_inside (hm : m.bottomThread = 0) (p : Prog) :
    Uniform d rest fun k => .run (m.onto (.call site d k :: rest)) p :=
  ⟨.inside m p site, hm, fun _ => rfl⟩

theorem framesOnto_cons (below : List Frame) (waiting : List Waiting) (f : Frame) (fs : List Frame) :
    framesOnto below waiting (f :: fs) = f :: framesOnto below waiting fs := by
  cases waiting <;> rfl

/-- The same machine on other frames. -/
theorem uniform_framesOnto (hm : m.bottomThread = 0) (fs : List Frame) (p : Prog) :
    Uniform d rest fun k => .run { m.onto (.call site d k :: rest) with
      frames := framesOnto (.call site d k :: rest) m.waiting fs } p :=
  uniform_inside (m := { m with frames := fs }) hm p

/-- The frames that a machine puts in place of its own do not matter to the unwinding. -/
theorem unwind_frames (e : Value) (x fs : List Frame) : unwind { m with frames := x } e fs = unwind m e fs := by
  induction fs with
  | nil => rfl
  | cons f fs ih =>
    cases f with
    | protect h k => rfl
    | closing v site k => simp only [unwind, ih]
    | call s d k => simpa only [unwind] using ih
    | loop k => simpa only [unwind] using ih
    | handling => simpa only [unwind] using ih
    | unwinding e' => simpa only [unwind] using ih

/-- Any continuation below gives the depth that one of them gives. -/
theorem depthOf_framesOnto (k : List Value → Prog) (waiting : List Waiting) (fs : List Frame) :
    depthOf (framesOnto (.call site d k :: rest) waiting fs) =
      depthOf (framesOnto (.call site d .done :: rest) waiting fs) := by
  cases waiting with
  | nil => induction fs with
    | nil => rfl
    | cons f fs ih => cases f <;> first | rfl | exact ih
  | cons w ws => rfl

theorem sites_framesOnto (k : List Value → Prog) (waiting : List Waiting) (fs : List Frame) :
    sites (framesOnto (.call site d k :: rest) waiting fs) =
      sites (framesOnto (.call site d .done :: rest) waiting fs) := by
  cases waiting with
  | nil => induction fs with
    | nil => rfl
    | cons f fs ih => cases f with
      | call s _ _ => exact congrArg (s :: ·) ih
      | _ => exact ih
  | cons w ws => rfl

theorem handlerOf_framesOnto (k : List Value → Prog) (waiting : List Waiting) (fs : List Frame) :
    handlerOf (framesOnto (.call site d k :: rest) waiting fs) =
      handlerOf (framesOnto (.call site d .done :: rest) waiting fs) := by
  cases waiting with
  | nil => induction fs with
    | nil => rfl
    | cons f fs ih => cases f <;> first | rfl | exact ih
  | cons w ws => rfl

theorem handlers_framesOnto (k : List Value → Prog) (waiting : List Waiting) (fs : List Frame) :
    handlers (framesOnto (.call site d k :: rest) waiting fs) =
      handlers (framesOnto (.call site d .done :: rest) waiting fs) := by
  cases waiting <;> simp [framesOnto, handlers]

theorem replaceCall_append (fs below : List Frame) :
    replaceCall (fs ++ below) = match replaceCall fs with
      | some (site, d, k, gs) => some (site, d, k, gs ++ below)
      | none => replaceCall below := by
  induction fs with
  | nil => rfl
  | cons f fs ih => cases f <;> first | rfl | exact ih

/-! ## Unwinding and returning -/

theorem main_of_waiting_nil (hm : m.bottomThread = 0) (hw : m.waiting = []) : m.Main := by
  refine ⟨hw, ?_⟩
  rw [bottomThread, hw] at hm
  exact hm

theorem unwind_onto (hm : m.bottomThread = 0) (e : Value) (fs : List Frame) :
    Uniform d rest fun k => unwind (m.onto (.call site d k :: rest)) e
      (framesOnto (.call site d k :: rest) m.waiting fs) := by
  induction fs with
  | nil =>
    rcases hw : m.waiting with _ | ⟨w, ws⟩
    · refine ⟨.raised m e, main_of_waiting_nil hm hw, fun k => ?_⟩
      simp only [framesOnto, List.nil_append, unwind, Fate.next, onto_of_waiting_nil hw, unwind_frames]
    · refine ⟨.inside (m.popped w ws .dead) (w.k false [e]) site, ?_, fun k => ?_⟩
      · rw [Fate.InMain, bottomThread_popped hw]
        exact hm
      · simp only [framesOnto, unwind, Fate.next]
        rw [resumeWaiting_onto hw, Option.getD_some]
  | cons f fs ih =>
    simp only [framesOnto_cons]
    cases f with
    | protect h k' => exact uniform_framesOnto hm fs (k' false [e])
    | closing v site' k' =>
      have hcatches : ∀ k, (catches (framesOnto (.call site d k :: rest) m.waiting fs) ||
          (m.onto (.call site d k :: rest)).waiting.head?.all (·.closes)) =
          (catches fs || m.waiting.head?.all (·.closes)) := fun k => by
        simp only [onto, head_closes_addWaiting]
        cases m.waiting <;> simp [framesOnto]
      simp only [unwind, hcatches]
      split
      · have hclosing : ∀ p, Uniform d rest fun k => .run { m.onto (.call site d k :: rest) with
            frames := framesOnto (.call site d k :: rest) m.waiting (.unwinding e :: fs) } p := uniform_framesOnto hm _
        simpa only [framesOnto_cons] using hclosing _
      · exact ih
    | call _ _ _ => exact ih
    | loop _ => exact ih
    | handling => exact ih
    | unwinding _ => exact ih

theorem returnTo_onto (hm : m.bottomThread = 0) (vs : List Value) (fs : List Frame) :
    Uniform d rest fun k => returnTo (m.onto (.call site d k :: rest)) vs
      (framesOnto (.call site d k :: rest) m.waiting fs) := by
  induction fs with
  | nil =>
    rcases hw : m.waiting with _ | ⟨w, ws⟩
    · refine ⟨.returned m vs, main_of_waiting_nil hm hw, fun k => ?_⟩
      simp only [framesOnto, List.nil_append, returnTo, Fate.next, onto, hw, addWaiting]
    · refine ⟨.inside (m.popped w ws .dead) (w.k true vs) site, ?_, fun k => ?_⟩
      · rw [Fate.InMain, bottomThread_popped hw]
        exact hm
      · simp only [framesOnto, returnTo, Fate.next]
        rw [resumeWaiting_onto hw, Option.getD_some]
  | cons f fs ih =>
    simp only [framesOnto_cons]
    cases f with
    | call _ _ k' => exact uniform_framesOnto hm fs (k' vs)
    | protect _ k' => exact uniform_framesOnto hm fs (k' true vs)
    | handling => exact unwind_onto hm (vs.headD .nil) fs
    | unwinding e => exact unwind_onto hm e fs
    | loop _ => exact ih
    | closing _ _ _ => exact ih

theorem leaveTo_onto (hm : m.bottomThread = 0) (flow : Flow) (fs : List Frame) :
    Uniform d rest fun k => leaveTo (m.onto (.call site d k :: rest)) flow
      (framesOnto (.call site d k :: rest) m.waiting fs) := by
  cases fs with
  | nil =>
    have hreturn : Uniform d rest fun k => returnTo (m.onto (.call site d k :: rest)) []
        (framesOnto (.call site d k :: rest) m.waiting []) := returnTo_onto hm [] []
    revert hreturn
    cases m.waiting <;> exact id
  | cons f fs =>
    have hreturn : Uniform d rest fun k => returnTo (m.onto (.call site d k :: rest)) []
        (framesOnto (.call site d k :: rest) m.waiting (f :: fs)) := returnTo_onto hm [] (f :: fs)
    simp only [framesOnto_cons] at hreturn ⊢
    cases f with
    | loop k' => exact uniform_framesOnto hm fs (k' flow)
    | closing v site' k' => exact uniform_framesOnto hm fs (closeCall v .nil site' fun _ => k' flow)
    | call _ _ _ => exact hreturn
    | protect _ _ => exact hreturn
    | handling => exact hreturn
    | unwinding _ => exact hreturn

/-! ## Calls -/

theorem uniform_frames (hm : m.bottomThread = 0) (f : Frame) (p : Prog) :
    Uniform d rest fun k => .run { m.onto (.call site d k :: rest) with
      frames := f :: (m.onto (.call site d k :: rest)).frames } p := by
  refine ⟨.inside { m with frames := f :: m.frames } p site, hm, fun k => ?_⟩
  rcases m with ⟨_, _, _, _, _, _ | ⟨w, ws⟩⟩ <;> rfl

theorem enter_onto (hm : m.bottomThread = 0) (f : Value) (args : List Value) (outer : Site) (checked : Bool)
    (k' : List Value → Prog) :
    Uniform d rest fun k => (m.onto (.call site d k :: rest)).enter f args outer checked k' := by
  have hdepth : ∀ k, depthOf (m.onto (.call site d k :: rest)).frames =
      depthOf (framesOnto (.call site d .done :: rest) m.waiting m.frames) :=
    fun k => depthOf_framesOnto k m.waiting m.frames
  simp only [enter, hdepth, onto_base, onto_store]
  split
  · exact uniform_inside hm _
  · exact uniform_frames hm _ _

theorem call_onto (hm : m.bottomThread = 0) (f : Value) (args : List Value) (outer : Site) (checked : Bool)
    (k' : List Value → Prog) :
    Uniform d rest fun k => (m.onto (.call site d k :: rest)).call f args outer checked k' := by
  simp only [call, onto_store]
  rcases resolve m.store maxCallChain f args with f' | ⟨f', args'⟩
  · exact uniform_inside hm (.fail (callError m.store f' outer))
  · exact enter_onto hm f' args' outer checked k'

theorem tailCall_onto (hm : m.bottomThread = 0) (f : Value) (args : List Value) (outer : Site)
    (k' : List Value → Prog) :
    Uniform d rest fun k => (m.onto (.call site d k :: rest)).tailCall f args outer k' := by
  simp only [tailCall, onto_store]
  rcases resolve m.store maxCallChain f args with f' | ⟨f', args'⟩
  · exact uniform_inside hm (.fail (callError m.store f' outer))
  · cases f' with
    | closure id =>
      -- the call that is replaced may be the one at the bottom
      rcases hw : m.waiting with _ | ⟨w, ws⟩
      · simp only [onto_of_waiting_nil hw, replaceCall_append]
        rcases replaceCall m.frames with _ | ⟨site', d', k₁, fs⟩
        · refine ⟨.inside { m with frames := [] } (body m.store (.closure id) args') { site with origin := none }, hm,
            fun k => ?_⟩
          simp only [replaceCall, Fate.next, onto_of_waiting_nil (m := { m with frames := [] }) hw, List.nil_append]
        · refine ⟨.inside { m with frames := .call { site' with origin := none } d' k₁ :: fs }
            (body m.store (.closure id) args') site, hm, fun k => ?_⟩
          simp only [Fate.next, onto_of_waiting_nil (m := { m with frames := _ :: fs }) hw, List.cons_append]
      · have hframes : ∀ k, (m.onto (.call site d k :: rest)).frames = m.frames := fun k => by
          simp only [onto, hw, framesOnto]
        simp only [hframes]
        rcases replaceCall m.frames with _ | ⟨site', d', k₁, fs⟩
        · exact enter_onto hm (.closure id) args' outer true k'
        · refine ⟨.inside { m with frames := .call { site' with origin := none } d' k₁ :: fs }
            (body m.store (.closure id) args') site, hm, fun k => ?_⟩
          simp only [Fate.next, onto, hw, framesOnto]
    | _ => exact enter_onto hm _ args' outer true k'

theorem raise_onto (hm : m.bottomThread = 0) (e : Value) :
    Uniform d rest fun k => (m.onto (.call site d k :: rest)).raise e := by
  have hhandler : ∀ k, handlerOf (m.onto (.call site d k :: rest)).frames =
      handlerOf (framesOnto (.call site d .done :: rest) m.waiting m.frames) :=
    fun k => handlerOf_framesOnto k m.waiting m.frames
  have hhandlers : ∀ k, handlers (m.onto (.call site d k :: rest)).frames =
      handlers (framesOnto (.call site d .done :: rest) m.waiting m.frames) :=
    fun k => handlers_framesOnto k m.waiting m.frames
  simp only [raise, hhandler, hhandlers]
  rcases handlerOf (framesOnto (.call site d .done :: rest) m.waiting m.frames) with _ | h
  · exact unwind_onto hm e m.frames
  · dsimp only
    split
    · exact unwind_onto hm handlingError m.frames
    · have hcall : Uniform d rest fun k => (onto { m with frames := .handling :: m.frames }
          (.call site d k :: rest)).call h [e] {} false .done :=
        call_onto (m := { m with frames := .handling :: m.frames }) hm h [e] {} false .done
      obtain ⟨fate, hmain, hnext⟩ := hcall
      refine ⟨fate, hmain, fun k => ?_⟩
      rw [← hnext k]
      rcases m with ⟨_, _, _, _, _, _ | ⟨w, ws⟩⟩ <;> rfl

/-! ## Coroutines -/

theorem yield_onto (hm : m.bottomThread = 0) (vs : List Value) (k' : List Value → Prog) :
    Uniform d rest fun k => (m.onto (.call site d k :: rest)).yield vs k' := by
  have hdepth : ∀ k, depthOf (m.onto (.call site d k :: rest)).frames =
      depthOf (framesOnto (.call site d .done :: rest) m.waiting m.frames) :=
    fun k => depthOf_framesOnto k m.waiting m.frames
  simp only [yield, hdepth, onto_thread]
  split
  · exact uniform_inside hm _
  · rename_i hthread
    split
    · exact uniform_inside hm _
    · -- a coroutine is running, so it is not at the bottom
      rcases hw : m.waiting with _ | ⟨w, ws⟩
      · exact absurd (main_of_waiting_nil hm hw).2 hthread
      · refine ⟨.inside (m.popped w ws (.suspended m.frames k')) (w.k true vs) site, ?_, fun k => ?_⟩
        · rw [Fate.InMain, bottomThread_popped hw]
          exact hm
        · have hframes : (m.onto (.call site d k :: rest)).frames = m.frames := by
            simp only [onto, hw, framesOnto]
          change ((m.onto (.call site d k :: rest)).resumeWaiting
            (.suspended (m.onto (.call site d k :: rest)).frames k') true vs).getD _ = _
          rw [hframes]
          exact congrArg (Option.getD · _) (resumeWaiting_onto hw (.suspended m.frames k') true vs _)

theorem switchTo_onto (hm : m.bottomThread = 0) (id : Nat) (closes : Bool) (fs : List Frame) (p : Prog)
    (k' : Bool → List Value → Prog) :
    Uniform d rest fun k => (m.onto (.call site d k :: rest)).switchTo id closes fs p k' := by
  have hdepth : ∀ k, depthOf (m.onto (.call site d k :: rest)).frames =
      depthOf (framesOnto (.call site d .done :: rest) m.waiting m.frames) :=
    fun k => depthOf_framesOnto k m.waiting m.frames
  let nested := m.base + (depthOf (framesOnto (.call site d .done :: rest) m.waiting m.frames)).nested
  refine ⟨.inside ⟨m.store, m.threads.set! id .active, id, nested + 1, fs,
    ⟨m.thread, m.frames, m.base, closes, k'⟩ :: m.waiting⟩ p site, ?_, fun k => ?_⟩
  · rw [Fate.InMain, ← hm, bottomThread, bottomThread]
    cases m.waiting with
    | nil => rfl
    | cons w ws => simp only [List.getLast?_cons, Option.map_some, Option.getD_some]
  · have hnested : m.base + (depthOf (m.onto (.call site d k :: rest)).frames).nested = nested := by rw [hdepth]
    rw [Fate.next, ← hnested]
    rcases m with ⟨_, _, _, _, _, _ | ⟨w, ws⟩⟩ <;> rfl

theorem resume_onto (hm : m.bottomThread = 0) (id : Nat) (args : List Value) (closes : Bool)
    (k' : Bool → List Value → Prog) :
    Uniform d rest fun k => (m.onto (.call site d k :: rest)).resume id args closes k' := by
  have hdepth : ∀ k, depthOf (m.onto (.call site d k :: rest)).frames =
      depthOf (framesOnto (.call site d .done :: rest) m.waiting m.frames) :=
    fun k => depthOf_framesOnto k m.waiting m.frames
  simp only [resume, hdepth, onto_base, onto_threads]
  split
  · exact uniform_inside hm _
  · split
    · exact switchTo_onto hm id closes [] _ k'
    · exact switchTo_onto hm id closes _ _ k'
    · exact uniform_inside hm _
    · exact uniform_inside hm _

/-- The frames of a waiting coroutine have the same depth for any continuation below. -/
theorem depthOf_waiting_onto (k : List Value → Prog) (id : Nat) (waiting : List Waiting) :
    depthOf ((((addWaiting (.call site d k :: rest) waiting).find? fun w => w.thread == id).map
        Waiting.frames).getD []) =
      depthOf ((((addWaiting (.call site d .done :: rest) waiting).find? fun w => w.thread == id).map
        Waiting.frames).getD []) := by
  induction waiting with
  | nil => rfl
  | cons w ws ih =>
    cases ws with
    | nil =>
      simp only [addWaiting, List.find?_cons, List.find?_nil]
      split
      · exact depthOf_framesOnto k [] w.frames
      · rfl
    | cons v ws =>
      simp only [addWaiting, List.find?_cons] at ih ⊢
      split
      · rfl
      · exact ih

theorem yieldable_onto (k : List Value → Prog) (id : Nat) :
    (m.onto (.call site d k :: rest)).yieldable id = (m.onto (.call site d .done :: rest)).yieldable id := by
  refine congrArg (fun depth => id != 0 && !Depth.locked depth) ?_
  change depthOf (if id = m.thread then _ else _) = depthOf (if id = m.thread then _ else _)
  split
  · exact depthOf_framesOnto k m.waiting m.frames
  · exact depthOf_waiting_onto k id m.waiting

/-! ## Steps and runs -/

/-- One step above the frame of a call has the same fate for every continuation of the call. -/
theorem step_onto (hm : m.bottomThread = 0) (p : Prog) :
    Uniform d rest fun k => (m.onto (.call site d k :: rest)).step p := by
  have hsites : ∀ k, sites (m.onto (.call site d k :: rest)).frames =
      sites (framesOnto (.call site d .done :: rest) m.waiting m.frames) :=
    fun k => sites_framesOnto k m.waiting m.frames
  cases p with
  | done vs => exact returnTo_onto hm vs m.frames
  | fail e => exact raise_onto hm e
  | query f => exact uniform_inside hm (f m.store)
  | update f p => exact uniform_inside (m := { m with store := f m.store }) hm p
  | call f args outer k' => exact call_onto hm f args outer true k'
  | tailCall f args outer k' => exact tailCall_onto hm f args outer k'
  | protect f args h k' =>
    have hcall : Uniform d rest fun k => (onto { m with frames := .protect h k' :: m.frames }
        (.call site d k :: rest)).call f args { yieldable := true } true .done :=
      call_onto (m := { m with frames := .protect h k' :: m.frames }) hm f args _ true .done
    obtain ⟨fate, hmain, hnext⟩ := hcall
    refine ⟨fate, hmain, fun k => ?_⟩
    rw [← hnext k]
    rcases m with ⟨_, _, _, _, _, _ | ⟨w, ws⟩⟩ <;> rfl
  | loop l k' => exact uniform_frames hm (.loop k') (Meaning.round l)
  | again l => exact uniform_inside hm (Meaning.round l)
  | leave flow => exact leaveTo_onto hm flow m.frames
  | closing v outer p k' => exact uniform_frames hm (.closing v outer k') p
  | callers k' =>
    simp only [step, hsites]
    exact uniform_inside hm _
  | yield vs k' => exact yield_onto hm vs k'
  | spawn f k' => exact uniform_inside (m := { m with threads := m.threads.push (.fresh f) }) hm (k' m.threads.size)
  | resume id args closes k' => exact resume_onto hm id args closes k'
  | status id k' => exact uniform_inside hm (k' (m.status id))
  | running k' => exact uniform_inside hm (k' m.thread)
  | yieldable id k' =>
    simp only [step, yieldable_onto (k := _) id]
    exact uniform_inside hm _

/-- What follows a step runs on. -/
def runNext (n : Nat) : Next → Machine × Option (Except Value (List Value))
  | .run m p => run n m p
  | .stop m r => (m, some r)

theorem run_succ (n : Nat) (m : Machine) (p : Prog) : run (n + 1) m p = runNext n (m.step p) := by
  rw [run]
  cases m.step p <;> rfl

/-- A run above the frame of a call either does not come down to the frame within its steps, or comes down to it after
some steps, with values or with an error. All this is the same for every continuation of the call. -/
theorem run_onto (d : Depth) (rest : List Frame) (n : Nat) : ∀ {m : Machine} (site : Site), m.bottomThread = 0 → ∀ p : Prog,
    (∀ k, (run n (m.onto (.call site d k :: rest)) p).2 = none) ∨
      ∃ (i : Nat) (fate : Fate), i ≤ n ∧ fate.InMain ∧ (∀ m' p' site', fate ≠ .inside m' p' site') ∧
        ∀ k x, run (i + x) (m.onto (.call site d k :: rest)) p = runNext x (fate.next d rest k) := by
  induction n with
  | zero => exact fun _ _ _ => .inl fun _ => rfl
  | succ n ih =>
    intro m site hm p
    have hstep : Uniform d rest fun k => (m.onto (.call site d k :: rest)).step p := step_onto hm p
    obtain ⟨fate, hmain, hnext⟩ := hstep
    dsimp only at hnext
    have hfirst : ∀ k x, run (1 + x) (m.onto (.call site d k :: rest)) p = runNext x (fate.next d rest k) :=
      fun k x => by rw [Nat.add_comm, run_succ, hnext k]
    cases fate with
    | inside m' p' site' =>
      have hrun : ∀ k x, run (x + 1) (m.onto (.call site d k :: rest)) p =
          run x (m'.onto (.call site' d k :: rest)) p' := fun k x => by
        rw [Nat.add_comm, hfirst, Fate.next, runNext]
      rcases ih site' hmain p' with hnone | ⟨i, fate, hi, hmain', hdown, hfate⟩
      · exact .inl fun k => by rw [hrun, hnone]
      · refine .inr ⟨i + 1, fate, by omega, hmain', hdown, fun k x => ?_⟩
        rw [Nat.add_right_comm, hrun, hfate]
    | returned m' vs => exact .inr ⟨1, .returned m' vs, by omega, hmain, fun _ _ _ => (by simp), hfirst⟩
    | raised m' e => exact .inr ⟨1, .raised m' e, by omega, hmain, fun _ _ _ => (by simp), hfirst⟩

end Steps

end Scratchpad.Lua.Machine
