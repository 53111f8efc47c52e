import Scratchpad.Lua.Library
import Scratchpad.Lua.Meaning

/-!
# The machine

Runs computations. What waits for the running computation is a list of frames: calls, protected calls, loops and values
to be closed. An error unwinds the frames down to the innermost protected call, and closes values on the way. Each
coroutine has frames of its own; the coroutines that have resumed others wait in a list.

`Machine.step` is one step and `Machine.run` all of them, as far as the fuel reaches.
-/

namespace Scratchpad.Lua

/-! ## Frames -/

/-- How deep a call is inside others, in one coroutine. -/
structure Depth where
  calls : Nat := 0
  /-- Calls that the interpreter makes by itself: metamethods, iterators, and the calls of library functions. -/
  nested : Nat := 0
  /-- A function around the call cannot be suspended. -/
  locked : Bool := false

/-- What waits for the running computation. -/
inductive Frame where
  | call (site : Site) (depth : Depth) (k : List Value → Prog)
  | protect (handler : Option Value) (k : Bool → List Value → Prog)
  | loop (k : Flow → Prog)
  /-- A value that is closed when the computation leaves. -/
  | closing (v : Value) (site : Site) (k : Flow → Prog)
  /-- The handler of an error is running; its value replaces the error. -/
  | handling
  /-- A value is being closed because of an error. -/
  | unwinding (e : Value)

/-- What a coroutine has in store. -/
inductive Thread where
  /-- It has not been resumed yet. -/
  | fresh (f : Value)
  | suspended (frames : List Frame) (k : List Value → Prog)
  /-- It is running, or waits for a coroutine that it resumed. -/
  | active
  | dead

/-- A coroutine that waits for the one it resumed. -/
structure Waiting where
  thread : Nat
  frames : List Frame
  base : Nat
  /-- An error in the resumed coroutine closes the values that were to be closed in it. -/
  closes : Bool
  k : Bool → List Value → Prog

/-- The state of a run. -/
structure Machine where
  store : Store
  /-- The coroutines by their numbers; the first one is the main program. -/
  threads : Array Thread := #[.active]
  /-- The running coroutine. -/
  thread : Nat := 0
  /-- The nested calls around the running coroutine. -/
  base : Nat := 1
  frames : List Frame := []
  waiting : List Waiting := []

/-- What follows a step. -/
inductive Next where
  | run (m : Machine) (p : Prog)
  | stop (m : Machine) (r : Except Value (List Value))

namespace Machine

/-! ## Depth -/

/-- The depth of the innermost call. -/
def depthOf : List Frame → Depth
  | [] => {}
  | .call _ d _ :: _ => d
  | _ :: fs => depthOf fs

/-- The calls that are active, the innermost first. -/
def sites : List Frame → List Site
  | [] => []
  | .call site _ _ :: fs => site :: sites fs
  | _ :: fs => sites fs

/-- A call that the interpreter makes by itself. -/
def isNested (site : Site) : Bool :=
  site.position.isNone || site.origin.any fun o => o.kind == "metamethod" || o.kind == "for iterator"

/-- No call is inside this many others. -/
def maxCalls : Nat := 199990

/-- No nested call is inside this many others. -/
def maxNested : Nat := 200

/-- How many nested calls the handling of errors may add to that. -/
def handlingRoom : Nat := 20

/-- The depth of a call inside another one. -/
def Depth.enter (d : Depth) (site : Site) : Depth :=
  { calls := d.calls + 1, nested := if isNested site then d.nested + 1 else d.nested,
    locked := d.locked || !site.yieldable }

/-- The words for the error of a call that is too deep. Handlers of that error may go a little deeper. -/
def tooDeep? (base : Nat) (before after : Depth) : Option String :=
  if after.calls = maxCalls then some "stack overflow"
  else if before.nested < after.nested && base + after.nested = maxNested then some "C stack overflow"
  else none

/-! ## Returns -/

/-- Gives control back to the coroutine that resumed the running one, if there is one. -/
def resumeWaiting (m : Machine) (state : Thread) (ok : Bool) (vs : List Value) : Option Next :=
  match m with
  | ⟨store, threads, thread, _, _, w :: waiting⟩ =>
    some (.run ⟨store, threads.set! thread state, w.thread, w.base, w.frames, waiting⟩ (w.k ok vs))
  | _ => none

/-- Closes a value: calls its metamethod with the error, if there is one. -/
def closeCall (v e : Value) (site : Site) (k : List Value → Prog) : Prog :=
  .query fun s => .call (s.metamethod v (bytes "__close")) [v, e] site k

/-- An error in the frame is caught in the coroutine. -/
def catches (fs : List Frame) : Bool :=
  fs.any fun f => match f with
    | .protect _ _ => true
    | _ => false

/-- An error passes through frames until it is caught. -/
def unwind (m : Machine) (e : Value) : List Frame → Next
  | [] =>
    let m := { m with frames := [] }
    (m.resumeWaiting .dead false [e]).getD (.stop m (.error e))
  | .protect _ k :: fs => .run { m with frames := fs } (k false [e])
  | .closing v site _ :: fs =>
    if catches fs || m.waiting.head?.all (·.closes) then
      .run { m with frames := .unwinding e :: fs } (closeCall v e { site with position := none, origin := none } .done)
    else unwind m e fs
  | _ :: fs => unwind m e fs

/-- The running function returns values to the frames. -/
def returnTo (m : Machine) (vs : List Value) : List Frame → Next
  | [] =>
    let m := { m with frames := [] }
    (m.resumeWaiting .dead true vs).getD (.stop m (.ok vs))
  | .call _ _ k :: fs => .run { m with frames := fs } (k vs)
  | .protect _ k :: fs => .run { m with frames := fs } (k true vs)
  | .handling :: fs => unwind m (vs.headD .nil) fs
  | .unwinding e :: fs => unwind m e fs
  | .loop _ :: fs => returnTo m vs fs
  | .closing _ _ _ :: fs => returnTo m vs fs

/-- Leaves the innermost loop, or the scope of a value to be closed. -/
def leaveTo (m : Machine) (flow : Flow) : List Frame → Next
  | .loop k :: fs => .run { m with frames := fs } (k flow)
  | .closing v site k :: fs => .run { m with frames := fs } (closeCall v .nil site fun _ => k flow)
  | fs => returnTo m [] fs

/-! ## Errors -/

/-- The handler that an error calls: that of the innermost protected call. -/
def handlerOf : List Frame → Option Value
  | [] => none
  | .protect h _ :: _ => h
  | _ :: fs => handlerOf fs

/-- What replaces an error that the handlers of errors keep raising. -/
def handlingError : Value :=
  .ofString "error in error handling"

/-- The handlers of errors that are running. -/
def handlers (fs : List Frame) : Nat :=
  fs.countP fun f => match f with
    | .handling => true
    | _ => false

/-! ## Calls -/

/-- How far objects that stand for functions are followed. -/
def maxCallChain : Nat := 200

/-- The function that a call of a value reaches, with its arguments; or the value that is none. -/
def resolve (s : Store) : Nat → Value → List Value → Except Value (Value × List Value)
  | 0, f, _ => .error f
  | fuel + 1, f, args =>
    if f.isFunction then .ok (f, args)
    else
      let h := s.metamethod f (bytes "__call")
      if h.isNil then .error f else resolve s fuel h (f :: args)

/-- What the call of a function does. -/
def body (s : Store) (f : Value) (args : List Value) : Prog :=
  match f with
  | .closure id => match s.closure? id with
    | some c => Meaning.invoke c args
    | none => .done []
  | .builtin b => Library.run b args .done
  | _ => .done []

/-- The error of a call of a value that is no function. -/
def callError (s : Store) (f : Value) (site : Site) : Value :=
  .str ((site.position.map Position.text).getD [] ++ bytes "attempt to call a " ++ s.typeText f ++ bytes " value" ++
    (site.origin.map Origin.text).getD [])

/-- Enters a function; `checked` calls may be too deep. -/
def enter (m : Machine) (f : Value) (args : List Value) (site : Site) (checked : Bool) (k : List Value → Prog) : Next :=
  let before := depthOf m.frames
  let after := Depth.enter before site
  match if checked then tooDeep? m.base before after else none with
  | some message =>
    .run m (.fail (.str ((site.position.map Position.text).getD [] ++ bytes message)))
  | none =>
    let p := body m.store f args
    .run { m with frames := .call site after k :: m.frames } p

/-- Calls a value. -/
def call (m : Machine) (f : Value) (args : List Value) (site : Site) (checked : Bool) (k : List Value → Prog) : Next :=
  match resolve m.store maxCallChain f args with
  | .ok (f, args) => m.enter f args site checked k
  | .error f =>
    let e := callError m.store f site
    .run m (.fail e)

/-- The frames behind those of the running function, with the call that it returns to. -/
def replaceCall : List Frame → Option (Site × Depth × (List Value → Prog) × List Frame)
  | [] => none
  | .call site d k :: fs => some (site, d, k, fs)
  | _ :: fs => replaceCall fs

/-- A call that takes the place of the running function if it reaches a function of a program. That function has no
name, and returns to where the running one was called. -/
def tailCall (m : Machine) (f : Value) (args : List Value) (site : Site) (k : List Value → Prog) : Next :=
  match resolve m.store maxCallChain f args with
  | .ok (.closure id, args) =>
    match replaceCall m.frames with
    | some (outer, depth, k, fs) =>
      let p := body m.store (.closure id) args
      .run { m with frames := .call { outer with origin := none } depth k :: fs } p
    | none => m.enter (.closure id) args site true k
  | .ok (f, args) => m.enter f args site true k
  | .error f =>
    let e := callError m.store f site
    .run m (.fail e)

/-- Raises an error: its handler runs first, on top of the frames. -/
def raise (m : Machine) (e : Value) : Next :=
  match handlerOf m.frames with
  | none => unwind m e m.frames
  | some h =>
    if handlingRoom ≤ handlers m.frames then unwind m handlingError m.frames
    else { m with frames := .handling :: m.frames }.call h [e] {} false .done

/-! ## Coroutines -/

def yield (m : Machine) (vs : List Value) (k : List Value → Prog) : Next :=
  if m.thread = 0 then .run m (.fail (.ofString "attempt to yield from outside a coroutine"))
  else if (depthOf m.frames).locked then .run m (.fail (.ofString "attempt to yield across a C-call boundary"))
  else
    let state := Thread.suspended m.frames k
    (m.resumeWaiting state true vs).getD (.stop m (.ok vs))

/-- Passes control to a coroutine. -/
def switchTo (m : Machine) (id : Nat) (closes : Bool) (frames : List Frame) (p : Prog)
    (k : Bool → List Value → Prog) : Next :=
  match m with
  | ⟨store, threads, thread, base, fs, waiting⟩ =>
    let nested := base + (depthOf fs).nested
    .run ⟨store, threads.set! id .active, id, nested + 1, frames, ⟨thread, fs, base, closes, k⟩ :: waiting⟩ p

def resume (m : Machine) (id : Nat) (args : List Value) (closes : Bool) (k : Bool → List Value → Prog) : Next :=
  let refuse (message : String) : Next := .run m (k false [.ofString message])
  if maxNested ≤ m.base + (depthOf m.frames).nested then refuse "C stack overflow"
  else match m.threads[id]? with
    | some (.fresh f) => m.switchTo id closes [] (.call f args { yieldable := true } .done) k
    | some (.suspended fs p) => m.switchTo id closes fs (p args) k
    | some .active => refuse "cannot resume non-suspended coroutine"
    | _ => refuse "cannot resume dead coroutine"

/-- What a coroutine is doing. -/
def status (m : Machine) (id : Nat) : Status :=
  if id = m.thread then .running
  else match m.threads[id]? with
    | some (.fresh _) => .suspended
    | some (.suspended _ _) => .suspended
    | some .active => .normal
    | _ => .dead

/-- A coroutine could be suspended where it is. The main program never can. -/
def yieldable (m : Machine) (id : Nat) : Bool :=
  let frames :=
    if id = m.thread then m.frames
    else ((m.waiting.find? fun w => w.thread == id).map Waiting.frames).getD []
  id != 0 && !(depthOf frames).locked

/-! ## Runs -/

/-- One step of a computation. -/
def step (m : Machine) (p : Prog) : Next :=
  match p with
  | .done vs => returnTo m vs m.frames
  | .fail e => m.raise e
  | .query f => let p := f m.store; .run m p
  | .update f k =>
    match m with
    | ⟨store, threads, thread, base, frames, waiting⟩ => .run ⟨f store, threads, thread, base, frames, waiting⟩ k
  | .call f args site k => m.call f args site true k
  | .tailCall f args site k => m.tailCall f args site k
  | .protect f args h k =>
    { m with frames := .protect h k :: m.frames }.call f args { yieldable := true } true .done
  | .loop l k => .run { m with frames := .loop k :: m.frames } (Meaning.round l)
  | .again l => .run m (Meaning.round l)
  | .leave flow => leaveTo m flow m.frames
  | .closing v site body k => .run { m with frames := .closing v site k :: m.frames } body
  | .callers k => let p := k (sites m.frames); .run m p
  | .yield vs k => m.yield vs k
  | .spawn f k => let id := m.threads.size; .run { m with threads := m.threads.push (.fresh f) } (k id)
  | .resume id args closes k => m.resume id args closes k
  | .status id k => let p := k (m.status id); .run m p
  | .running k => let p := k m.thread; .run m p
  | .yieldable id k => let p := k (m.yieldable id); .run m p

/-- Runs a computation for at most `fuel` steps; without a result if they do not suffice. -/
def run : Nat → Machine → Prog → Machine × Option (Except Value (List Value))
  | 0, m, _ => (m, none)
  | fuel + 1, m, p =>
    match m.step p with
    | .run m p => run fuel m p
    | .stop m r => (m, some r)

end Machine

end Scratchpad.Lua
