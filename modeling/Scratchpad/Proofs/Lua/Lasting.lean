import Scratchpad.Proofs.Lua.Call
import Scratchpad.Proofs.Lua.Library

/-!
# Invariants that runs keep

Whatever waits in a machine, and whatever runs in it, came from a program or from the library, and keeps every lasting
invariant (`Machine.Keeps`). Main statements: a step keeps a lasting invariant (`keeps_step`), and so does a run,
however long it is and however it ends; the values in which it ends satisfy the invariant (`keeps_run`).
-/

namespace Scratchpad.Lua.Machine

open HasValues

section

variable (I : Invariant)

/-- What waits in the frame keeps `I`. -/
def FrameKeeps : Frame → Prop
  | .call _ _ k => ∀ vs, All I.value vs → (k vs).Keeps I
  | .protect handler k => All I.value handler ∧ ∀ ok vs, All I.value vs → (k ok vs).Keeps I
  | .loop k => ∀ flow, All I.value flow → (k flow).Keeps I
  | .closing v _ k => I.value v ∧ ∀ flow, All I.value flow → (k flow).Keeps I
  | .handling => True
  | .unwinding e => I.value e

def FramesKeep (fs : List Frame) : Prop :=
  ∀ f ∈ fs, FrameKeeps I f

/-- What a coroutine has in store keeps `I`. -/
def ThreadKeeps : Thread → Prop
  | .fresh f => I.value f
  | .suspended fs k => FramesKeep I fs ∧ ∀ vs, All I.value vs → (k vs).Keeps I
  | _ => True

structure WaitingKeeps (w : Waiting) : Prop where
  frames : FramesKeep I w.frames
  k : ∀ ok vs, All I.value vs → (w.k ok vs).Keeps I

/-- The store satisfies the invariant, and all that waits keeps it. -/
structure Keeps (m : Machine) : Prop where
  store : I.store m.store
  threads : ∀ t ∈ m.threads, ThreadKeeps I t
  frames : FramesKeep I m.frames
  waiting : ∀ w ∈ m.waiting, WaitingKeeps I w

def NextKeeps : Next → Prop
  | .run m p => m.Keeps I ∧ p.Keeps I
  | .stop m r => m.Keeps I ∧ All I.value r

end

variable {I : Invariant} {m : Machine} {p : Prog} {fs : List Frame} {f : Frame} {vs : List Value} {e : Value}

/-! ## Parts of a machine -/

theorem framesKeep_nil : FramesKeep I [] := by
  simp [FramesKeep]

theorem FramesKeep.cons (hf : FrameKeeps I f) (h : FramesKeep I fs) : FramesKeep I (f :: fs) :=
  List.forall_mem_cons.2 ⟨hf, h⟩

theorem FramesKeep.head (h : FramesKeep I (f :: fs)) : FrameKeeps I f :=
  h f List.mem_cons_self

theorem FramesKeep.tail (h : FramesKeep I (f :: fs)) : FramesKeep I fs :=
  fun g hg => h g (List.mem_cons_of_mem f hg)

theorem Keeps.withFrames (h : m.Keeps I) (hfs : FramesKeep I fs) : Keeps I { m with frames := fs } :=
  ⟨h.store, h.threads, hfs, h.waiting⟩

theorem forall_mem_set! {α : Type} {P : α → Prop} {xs : Array α} (h : ∀ x ∈ xs, P x) (i : Nat) {x : α} (hx : P x) :
    ∀ y ∈ xs.set! i x, P y := by
  intro y hy
  rw [Array.set!_eq_setIfInBounds] at hy
  rcases Array.mem_or_eq_of_mem_setIfInBounds hy with hy | rfl
  · exact h y hy
  · exact hx

theorem Keeps.resumeWaiting (h : m.Keeps I) {t : Thread} (ht : ThreadKeeps I t) (ok : Bool) (hvs : All I.value vs)
    {next : Next} (hnext : m.resumeWaiting t ok vs = some next) : NextKeeps I next := by
  obtain ⟨store, threads, thread, base, frames, waiting⟩ := m
  cases waiting with
  | nil => cases hnext
  | cons w ws =>
    cases hnext
    have hw := h.waiting w List.mem_cons_self
    exact ⟨⟨h.store, forall_mem_set! h.threads _ ht, hw.frames, fun v hv => h.waiting v (List.mem_cons_of_mem w hv)⟩,
      hw.k ok vs hvs⟩

/-- Control goes back to a waiting coroutine, or the run stops. -/
theorem Keeps.resumeOr (h : m.Keeps I) {t : Thread} (ht : ThreadKeeps I t) (ok : Bool) (hvs : All I.value vs)
    {r : Except Value (List Value)} (hr : All I.value r) :
    NextKeeps I ((m.resumeWaiting t ok vs).getD (.stop m r)) := by
  cases hnext : m.resumeWaiting t ok vs with
  | none => exact ⟨h, hr⟩
  | some next => exact h.resumeWaiting ht ok hvs hnext

/-! ## Returns and errors -/

section Returns

variable (hI : I.Lasting)

include hI

theorem keeps_closeCall {v e : Value} (hv : I.value v) (he : I.value e) (site : Site) {k : List Value → Prog}
    (hk : ∀ vs, All I.value vs → (k vs).Keeps I) : (closeCall v e site k).Keeps I :=
  fun _ hs => ⟨hI.metamethod hs _ _, all_cons hv (all_singleton he), hk⟩

theorem Keeps.unwind (h : m.Keeps I) (he : I.value e) (hfs : FramesKeep I fs) : NextKeeps I (unwind m e fs) := by
  induction fs with
  | nil => exact (h.withFrames framesKeep_nil).resumeOr (t := .dead) trivial false (all_singleton he) he
  | cons f fs ih =>
    cases f with
    | protect _ k => exact ⟨h.withFrames hfs.tail, hfs.head.2 false [e] (all_singleton he)⟩
    | closing v site k =>
      rw [Machine.unwind]
      split
      · exact ⟨h.withFrames (hfs.tail.cons (f := .unwinding e) he),
          keeps_closeCall hI hfs.head.1 he _ fun _ hvs => hvs⟩
      · exact ih hfs.tail
    | call _ _ _ => exact ih hfs.tail
    | loop _ => exact ih hfs.tail
    | handling => exact ih hfs.tail
    | unwinding _ => exact ih hfs.tail

theorem Keeps.returnTo (h : m.Keeps I) (hvs : All I.value vs) (hfs : FramesKeep I fs) :
    NextKeeps I (returnTo m vs fs) := by
  induction fs with
  | nil => exact (h.withFrames framesKeep_nil).resumeOr (t := .dead) trivial true hvs hvs
  | cons f fs ih =>
    cases f with
    | call _ _ k => exact ⟨h.withFrames hfs.tail, hfs.head vs hvs⟩
    | protect _ k => exact ⟨h.withFrames hfs.tail, hfs.head.2 true vs hvs⟩
    | handling => exact h.unwind hI (hI.first hvs) hfs.tail
    | unwinding e => exact h.unwind hI hfs.head hfs.tail
    | loop _ => exact ih hfs.tail
    | closing _ _ _ => exact ih hfs.tail

theorem Keeps.leaveTo (h : m.Keeps I) {flow : Flow} (hflow : All I.value flow) (hfs : FramesKeep I fs) :
    NextKeeps I (leaveTo m flow fs) := by
  cases fs with
  | nil => exact h.returnTo hI all_nil hfs
  | cons f fs =>
    cases f with
    | loop k => exact ⟨h.withFrames hfs.tail, hfs.head flow hflow⟩
    | closing v site k =>
      exact ⟨h.withFrames hfs.tail, keeps_closeCall hI hfs.head.1 hI.nil site fun _ _ => hfs.head.2 flow hflow⟩
    | call _ _ _ => exact h.returnTo hI all_nil hfs
    | protect _ _ => exact h.returnTo hI all_nil hfs
    | handling => exact h.returnTo hI all_nil hfs
    | unwinding _ => exact h.returnTo hI all_nil hfs

end Returns

/-! ## Calls -/

section Calls

variable (hI : I.Lasting) {v : Value} {args : List Value}

include hI

theorem keeps_body (s : Store) (v : Value) (hargs : All I.value args) : (body s v args).Keeps I := by
  unfold body
  split
  · split
    · exact Meaning.keeps_invoke hI _ hargs
    · exact all_nil
  · exact (Library.keeps_run hI _ hargs).before _ fun _ hvs => hvs
  · exact all_nil

theorem Keeps.enter (h : m.Keeps I) (v : Value) (hargs : All I.value args) (site : Site) (checked : Bool)
    {k : List Value → Prog} (hk : ∀ vs, All I.value vs → (k vs).Keeps I) :
    NextKeeps I (m.enter v args site checked k) := by
  unfold Machine.enter
  dsimp only
  split
  · exact ⟨h, hI.str _⟩
  · exact ⟨h.withFrames (h.frames.cons hk), keeps_body hI _ v hargs⟩

/-- The objects that stand for functions come before the arguments. -/
theorem all_resolve {s : Store} (hs : I.store s) (fuel : Nat) (hv : I.value v) (hargs : All I.value args)
    {w : Value} {args' : List Value} (hresolve : resolve s fuel v args = .ok (w, args')) : All I.value args' := by
  induction fuel generalizing v args with
  | zero => cases hresolve
  | succ fuel ih =>
    rw [resolve] at hresolve
    split at hresolve
    · cases hresolve
      exact hargs
    · dsimp only at hresolve
      split at hresolve
      · cases hresolve
      · exact ih (hI.metamethod hs _ _) (all_cons hv hargs) hresolve

theorem Keeps.call (h : m.Keeps I) (hv : I.value v) (hargs : All I.value args) (site : Site) (checked : Bool)
    {k : List Value → Prog} (hk : ∀ vs, All I.value vs → (k vs).Keeps I) :
    NextKeeps I (m.call v args site checked k) := by
  unfold Machine.call
  split
  · rename_i hresolve
    exact h.enter hI _ (all_resolve hI h.store _ hv hargs hresolve) site checked hk
  · exact ⟨h, hI.str _⟩

omit hI in
theorem framesKeep_replaceCall {site : Site} {depth : Depth} {k : List Value → Prog} {rest : List Frame}
    (hfs : FramesKeep I fs) (h : replaceCall fs = some (site, depth, k, rest)) :
    (∀ vs, All I.value vs → (k vs).Keeps I) ∧ FramesKeep I rest := by
  induction fs with
  | nil => cases h
  | cons f fs ih =>
    cases f with
    | call _ _ _ =>
      cases h
      exact ⟨hfs.head, hfs.tail⟩
    | _ => exact ih hfs.tail h

theorem Keeps.tailCall (h : m.Keeps I) (hv : I.value v) (hargs : All I.value args) (site : Site)
    {k : List Value → Prog} (hk : ∀ vs, All I.value vs → (k vs).Keeps I) : NextKeeps I (m.tailCall v args site k) := by
  unfold Machine.tailCall
  split
  · rename_i hresolve
    have hargs' := all_resolve hI h.store _ hv hargs hresolve
    split
    · rename_i hreplace
      obtain ⟨hk', hrest⟩ := framesKeep_replaceCall h.frames hreplace
      exact ⟨h.withFrames (hrest.cons hk'), keeps_body hI _ _ hargs'⟩
    · exact h.enter hI _ hargs' site true hk
  · rename_i hresolve
    exact h.enter hI _ (all_resolve hI h.store _ hv hargs hresolve) site true hk
  · exact ⟨h, hI.str _⟩

omit hI in
theorem value_handlerOf {handler : Value} (hfs : FramesKeep I fs) (h : handlerOf fs = some handler) :
    I.value handler := by
  induction fs with
  | nil => cases h
  | cons f fs ih =>
    cases f with
    | protect _ _ => exact hfs.head.1 handler h
    | _ => exact ih hfs.tail h

theorem Keeps.raise (h : m.Keeps I) (he : I.value e) : NextKeeps I (m.raise e) := by
  unfold Machine.raise
  split
  · exact h.unwind hI he h.frames
  · rename_i hhandler
    split
    · exact h.unwind hI (hI.str _) h.frames
    · exact (h.withFrames (h.frames.cons (f := .handling) trivial)).call hI (value_handlerOf h.frames hhandler)
        (all_singleton he) _ _ fun _ hvs => hvs

end Calls

/-! ## Coroutines -/

section Coroutines

variable (hI : I.Lasting)

include hI

theorem Keeps.yield (h : m.Keeps I) (hvs : All I.value vs) {k : List Value → Prog}
    (hk : ∀ vs, All I.value vs → (k vs).Keeps I) : NextKeeps I (m.yield vs k) := by
  unfold Machine.yield
  split
  · exact ⟨h, hI.str _⟩
  · split
    · exact ⟨h, hI.str _⟩
    · exact h.resumeOr (t := .suspended m.frames k) ⟨h.frames, hk⟩ true hvs hvs

omit hI in
theorem Keeps.switchTo (h : m.Keeps I) (id : Nat) (closes : Bool) (hfs : FramesKeep I fs) (hp : p.Keeps I)
    {k : Bool → List Value → Prog} (hk : ∀ ok vs, All I.value vs → (k ok vs).Keeps I) :
    NextKeeps I (m.switchTo id closes fs p k) := by
  obtain ⟨store, threads, thread, base, frames, waiting⟩ := m
  exact ⟨⟨h.store, forall_mem_set! h.threads _ trivial, hfs, List.forall_mem_cons.2 ⟨⟨h.frames, hk⟩, h.waiting⟩⟩, hp⟩

theorem Keeps.resume (h : m.Keeps I) (id : Nat) (hvs : All I.value vs) (closes : Bool)
    {k : Bool → List Value → Prog} (hk : ∀ ok vs, All I.value vs → (k ok vs).Keeps I) :
    NextKeeps I (m.resume id vs closes k) := by
  have hrefuse : ∀ message, (k false [.ofString message]).Keeps I := fun _ => hk _ _ (all_singleton (hI.str _))
  unfold Machine.resume
  dsimp only
  split
  · exact ⟨h, hrefuse _⟩
  · split
    · rename_i f hthread
      have hf : I.value f := h.threads _ (Array.mem_of_getElem? hthread)
      exact h.switchTo id closes framesKeep_nil
        (show Prog.Keeps I (.call f vs _ .done) from ⟨hf, hvs, fun _ hvs => hvs⟩) hk
    · rename_i hthread
      have hstate := h.threads _ (Array.mem_of_getElem? hthread)
      exact h.switchTo id closes hstate.1 (hstate.2 vs hvs) hk
    · exact ⟨h, hrefuse _⟩
    · exact ⟨h, hrefuse _⟩

end Coroutines

/-! ## Steps and runs -/

variable (hI : I.Lasting)

include hI

/-- A step keeps a lasting invariant. -/
theorem keeps_step (h : m.Keeps I) (hp : p.Keeps I) : NextKeeps I (m.step p) := by
  cases p with
  | done vs => exact h.returnTo hI hp h.frames
  | fail e => exact h.raise hI hp
  | query f => exact ⟨h, hp m.store h.store⟩
  | update f k => exact ⟨⟨hp.1 _ h.store, h.threads, h.frames, h.waiting⟩, hp.2⟩
  | call f args site k => exact h.call hI hp.1 hp.2.1 site true hp.2.2
  | tailCall f args site k => exact h.tailCall hI hp.1 hp.2.1 site hp.2.2
  | protect f args handler k =>
    obtain ⟨hf, hargs, hk⟩ := hp
    exact (h.withFrames (h.frames.cons (f := .protect handler k) hk)).call hI hf hargs _ true fun _ hvs => hvs
  | loop l k => exact ⟨h.withFrames (h.frames.cons hp.2), Meaning.keeps_round hI hp.1⟩
  | again l => exact ⟨h, Meaning.keeps_round hI hp⟩
  | leave flow => exact h.leaveTo hI hp h.frames
  | closing v site body k => exact ⟨h.withFrames (h.frames.cons (f := .closing v site k) ⟨hp.1, hp.2.2⟩), hp.2.1⟩
  | callers k => exact ⟨h, hp _⟩
  | yield vs k => exact h.yield hI hp.1 hp.2
  | spawn f k =>
    refine ⟨⟨h.store, fun t ht => ?_, h.frames, h.waiting⟩, hp.2 _⟩
    rcases Array.mem_push.1 ht with ht | rfl
    · exact h.threads t ht
    · exact hp.1
  | resume id args closes k => exact h.resume hI id hp.1 closes hp.2
  | status id k => exact ⟨h, hp _⟩
  | running k => exact ⟨h, hp _⟩
  | yieldable id k => exact ⟨h, hp _⟩

/-- A run keeps a lasting invariant. -/
theorem keeps_run (n : Nat) (h : m.Keeps I) (hp : p.Keeps I) :
    (run n m p).1.Keeps I ∧ All I.value (run n m p).2 := by
  induction n generalizing m p with
  | zero => exact ⟨h, all_none⟩
  | succ n ih =>
    have hstep := keeps_step hI h hp
    rw [run_succ]
    cases hnext : m.step p with
    | run m' p' =>
      rw [hnext] at hstep
      exact ih hstep.1 hstep.2
    | stop m' r =>
      rw [hnext] at hstep
      exact ⟨hstep.1, all_some hstep.2⟩

end Scratchpad.Lua.Machine
