import Scratchpad.Evaluation
import Scratchpad.Inspect.Layout
import Scratchpad.Paragraph
import Scratchpad.Region
import Scratchpad.Registry
import Scratchpad.Settings.Draft

/-!
# Sessions

A session holds the open surfaces with their environments. Evaluating a region of a surface removes the result of its
last evaluation, evaluates the text of the region, and inserts the new result behind it.
-/

namespace Scratchpad

/-- An entry of the log. -/
inductive LogEntry where
  | createdEnvironment (id : SurfaceId)
  | resetEnvironment (id : SurfaceId)
  | evaluation (note : EvaluationNote)
  | removedNotes (count : Nat) (surface : String)
  | evaluatedLines (surface : String) (first last : Int) (inserted : Nat)
  deriving Repr

/-- What a session cannot do. -/
inductive SessionError where
  | unknownSurface (id : SurfaceId)
  | fault (f : Fault)
  deriving Repr

/-- The wording of an error. -/
def SessionError.message : SessionError → String
  | unknownSurface id => "unknown surface: " ++ id.describe
  | fault f => f.message

structure Session where
  settings : Settings
  interpreter : Interpreter := {}
  registry : Registry := {}
  /-- The open surfaces, the oldest first. -/
  surfaces : List (SurfaceId × Surface) := []
  /-- How many scratch surfaces were made. -/
  scratches : Nat := 0
  /-- The log, the last entry first. -/
  log : List LogEntry := []

namespace Session

/-- A session with checked settings. -/
def ofDraft (d : Draft) : Except SettingsError Session := do
  d.validate
  return { settings := d.toSettings }

/-- A change of a session. What was done before an error stays done. -/
abbrev Action (α : Type) := ExceptT SessionError (StateM Session) α

/-! ## State -/

def note (e : LogEntry) : Action Unit :=
  modify fun s => { s with log := e :: s.log }

/-- The surfaces with one of them replaced in its place, or added at the end. -/
def putSurface (surfaces : List (SurfaceId × Surface)) (id : SurfaceId) (surface : Surface) :
    List (SurfaceId × Surface) :=
  if surfaces.any fun e => e.1 = id then surfaces.map fun e => if e.1 = id then (id, surface) else e
  else surfaces ++ [(id, surface)]

def setSurface (id : SurfaceId) (surface : Surface) : Action Unit :=
  modify fun s => { s with surfaces := putSurface s.surfaces id surface }

/-- An open surface. -/
def surface (id : SurfaceId) : Action Surface := do
  match (← get).surfaces.lookup id with
  | some s => return s
  | none => throw (.unknownSurface id)

def touch (id : SurfaceId) : Action Unit :=
  modify fun s => { s with registry := s.registry.touch id }

/-- The environment of a surface, made if there is none. -/
def environment (id : SurfaceId) : Action Nat := do
  let s ← get
  let (env, created, registry, interpreter) := s.registry.getOrCreate s.interpreter id
  set { s with registry, interpreter }
  if created then note (.createdEnvironment id)
  return env

/-- Drops the environment of a surface, if there is one. -/
def dropEnvironment (id : SurfaceId) : Action Unit := do
  if (← get).registry.contains id then
    modify fun s => { s with registry := s.registry.reset id }
    note (.resetEnvironment id)

/-! ## The life of surfaces -/

/-- Opens a surface, an empty one if there is none, and makes it the active one. -/
def openSurface (id : SurfaceId) : Action Surface := do
  let surface ← match (← get).surfaces.lookup id with
    | some s => pure s
    | none => do
      let new := Surface.ofLines id.name []
      setSurface id new
      pure new
  if (← get).settings.persist then
    let _ ← environment id
  touch id
  return surface

/-- Adds a surface, under its name unless another identifier is given. -/
def attach (new : Surface) (id? : Option SurfaceId) : Action SurfaceId := do
  let id := id?.getD (.text new.name)
  setSurface id new
  let _ ← openSurface id
  return id

/-- The active surface, if it is open. -/
def active? (s : Session) : Option (SurfaceId × Surface) := do
  let id ← s.registry.active
  let surface ← s.surfaces.lookup id
  return (id, surface)

/-- The name of the first scratch surface. -/
def scratchName : String := "luapad://scratch"

/-- The name of the scratch surface number `n`. -/
def scratchNameAt (n : Nat) : String :=
  if n = 1 then scratchName else scratchName ++ "/" ++ toString n

/-- Makes a scratch surface with the introduction on it. -/
def newScratch : Action SurfaceId := do
  let n := (← get).scratches + 1
  modify fun s => { s with scratches := n }
  let name := scratchNameAt n
  setSurface (.text name) (.ofLines name (← get).settings.intro)
  return .text name

/-- A surface with an empty last line and the cursor on it. -/
def readyForInput (s : Surface) : Surface :=
  let s := if s.lines.getLast? = some "" then s else s.insertLines s.lineCount [""]
  s.setCursor (s.lineCount - 1)

/-- The active surface, or a new scratch surface if there is none or if `forceNew`. -/
def openScratch (forceNew : Bool) : Action SurfaceId := do
  let before ← get
  let current := if forceNew then none else (active? before).map (·.1)
  let id ← match current with
    | some id => pure id
    | none => newScratch
  if !(← get).settings.persist then dropEnvironment id
  let s ← openSurface id
  if current.isNone then setSurface id (readyForInput s)
  return id

/-- Closes a surface and drops its environment. The oldest of the others becomes active if none is. -/
def close (id : SurfaceId) : Action Unit := do
  modify fun s => { s with surfaces := s.surfaces.filter fun e => e.1 ≠ id }
  dropEnvironment id
  modify fun s => { s with registry := s.registry.forget id }
  let s ← get
  if s.registry.active.isNone then
    match s.surfaces with
    | (first, _) :: _ => touch first
    | [] => pure ()

/-- Drops the environment of a surface, or of the active one. -/
def resetEnvironment (id? : Option SurfaceId) : Action Unit := do
  let s ← get
  match id? <|> s.registry.active with
  | none => pure ()
  | some id => if (s.surfaces.lookup id).isSome then dropEnvironment id

/-- Changes a surface. -/
def edit {α : Type} (id : SurfaceId) (f : Surface → α × Surface) : Action α := do
  let (a, s) := f (← surface id)
  setSurface id s
  return a

/-! ## Evaluation -/

/-- Evaluates a text in the environment of a surface. -/
def evaluateText (id : SurfaceId) (code : String) : Action (Outcome Inspect.Value) := do
  let env ← environment id
  let s ← get
  let evaluator : Evaluator := { chunkName := s.settings.chunkName }
  let (r, interpreter, notes) := evaluator.evaluate s.interpreter env code
  set { s with interpreter, log := (notes.map LogEntry.evaluation).reverse ++ s.log }
  match r with
  | .ok o => return o
  | .error f => throw (.fault f)

/-- The text of a value in this session. -/
def shownText (s : Session) (v : Inspect.Value) : String :=
  Inspect.inspect (.ofSettings s.settings) s.interpreter.shownTable v

/-- Evaluates the lines from `first` to `last` and inserts the result; yields the number of lines inserted. -/
def evaluateRegion (id : SurfaceId) (first last : Int) : Action Nat := do
  let start ← surface id
  touch id
  let settings := (← get).settings
  let last := min last (start.lineCount - 1)
  if first < 0 ∨ last < first then return 0
  let (removed, cleared) := removeStale settings start last
  setSurface id cleared
  if noteFollows settings start last then note (.removedNotes removed start.name)
  let lines := cleared.getLines first (last + 1)
  if lines.isEmpty then return 0
  let outcome ← evaluateText id (Text.joinLines lines)
  let block := Block.ofOutcome settings (shownText (← get)) outcome
  let (inserted, _, final) := insertBlock settings cleared (last + 1) block
  setSurface id final
  note (.evaluatedLines start.name first last inserted)
  return inserted

/-- Evaluates a line; the cursor moves behind the result. -/
def evaluateLine (id : SurfaceId) (line : Int) : Action Nat := do
  let _ ← surface id
  let inserted ← evaluateRegion id line line
  edit id fun s => (inserted, s.setCursor (line + inserted))

/-- The last of some lines, counted from `first`, that is neither blank nor a note; none if there is no such line. -/
def codeEnd? (s : Settings) (lines : List String) (first : Nat) : Option Nat :=
  let trimmed := (lines.reverse.dropWhile fun l => Text.isBlank l || s.isNote l).length
  if trimmed = 0 then none else some (first + trimmed - 1)

/-- Evaluates the lines from `first` to `last`, less the notes and blank lines at their end. -/
def evaluateCode (id : SurfaceId) (first last : Nat) : Action Nat := do
  let s ← surface id
  match codeEnd? (← get).settings ((s.lines.take (last + 1)).drop first) first with
  | none => return 0
  | some last =>
    let inserted ← evaluateRegion id first last
    edit id fun s => (inserted, s.setCursor (last + inserted))

/-- Evaluates the block of lines around a line. -/
def evaluateBlock (id : SurfaceId) (line : Int) : Action Nat := do
  let s ← surface id
  match paragraph? s.lines line with
  | none => return 0
  | some (first, last) => evaluateCode id first last

/-- Evaluates a whole surface. -/
def evaluateSurface (id : SurfaceId) : Action Nat := do
  let s ← surface id
  evaluateCode id 0 (s.lineCount - 1)

/-- Evaluates the lines between two lines, in either order. -/
def evaluateSelection (id : SurfaceId) (a b : Int) : Action Nat := do
  let _ ← surface id
  let first := min a b
  let last := max a b
  let inserted ← evaluateRegion id first last
  edit id fun s => (inserted, s.setCursor (last + inserted))

end Session

end Scratchpad
