import Scratchpad.Proofs.Region
import Scratchpad.Session

/-!
# Runs of a session's actions

`Action.runFrom` runs an action in a session; the equations for the basic actions are simp lemmas, and
`runFrom_bind` takes a sequence of actions apart. Main statements:

- an evaluation changes no setting and no surface (`evaluateText_frame`);
- the run of a region, in the three cases that there are: no surface (`runFrom_evaluateRegion_of_none`), no line
  (`runFrom_evaluateRegion_of_empty`), and some lines, whose text is evaluated between the removal of the old block and
  the insertion of the new one (`runFrom_evaluateRegion`).
-/

namespace Scratchpad.Session

/-- What an action yields in a session, and the session after it. -/
def Action.runFrom {α : Type} (a : Action α) (s : Session) : Except SessionError α × Session :=
  (ExceptT.run a).run s

section Run

variable {α β : Type} (s : Session)

@[simp]
theorem runFrom_pure (a : α) : (pure a : Action α).runFrom s = (.ok a, s) := rfl

/-- What follows an action runs in the session that the action leaves, unless it failed. -/
theorem runFrom_bind (a : Action α) (f : α → Action β) :
    (a >>= f).runFrom s = match a.runFrom s with
      | (.ok x, s') => (f x).runFrom s'
      | (.error e, s') => (.error e, s') := by
  simp only [Action.runFrom, ExceptT.run_bind, StateT.run_bind]
  rcases StateT.run (ExceptT.run a) s with ⟨_ | x, s'⟩ <;> rfl

@[simp]
theorem runFrom_throw (e : SessionError) : (throw e : Action α).runFrom s = (.error e, s) := rfl

@[simp]
theorem runFrom_get : (get : Action Session).runFrom s = (.ok s, s) := rfl

@[simp]
theorem runFrom_set (s' : Session) : (set s' : Action PUnit).runFrom s = (.ok ⟨⟩, s') := rfl

@[simp]
theorem runFrom_modify (f : Session → Session) : (modify f : Action PUnit).runFrom s = (.ok ⟨⟩, f s) := rfl

@[simp]
theorem runFrom_note (e : LogEntry) : (note e).runFrom s = (.ok (), { s with log := e :: s.log }) := rfl

@[simp]
theorem runFrom_touch (id : SurfaceId) :
    (touch id).runFrom s = (.ok (), { s with registry := s.registry.touch id }) := rfl

@[simp]
theorem runFrom_setSurface (id : SurfaceId) (surface : Surface) :
    (setSurface id surface).runFrom s = (.ok (), { s with surfaces := putSurface s.surfaces id surface }) := rfl

theorem runFrom_surface_of_some {id : SurfaceId} {x : Surface} (h : s.surfaces.lookup id = some x) :
    (surface id).runFrom s = (.ok x, s) := by
  simp [surface, runFrom_bind, h]

theorem runFrom_surface_of_none {id : SurfaceId} (h : s.surfaces.lookup id = none) :
    (surface id).runFrom s = (.error (.unknownSurface id), s) := by
  simp [surface, runFrom_bind, h]

theorem runFrom_edit {id : SurfaceId} {x : Surface} (h : s.surfaces.lookup id = some x) (f : Surface → α × Surface) :
    (edit id f).runFrom s = (.ok (f x).1, { s with surfaces := putSurface s.surfaces id (f x).2 }) := by
  rw [edit, runFrom_bind, runFrom_surface_of_some s h]
  rfl

end Run

/-- The session with an environment for the surface, made if there is none. -/
def provided (s : Session) (id : SurfaceId) : Session :=
  let (_, created, registry, interpreter) := s.registry.getOrCreate s.interpreter id
  { s with registry, interpreter, log := if created then .createdEnvironment id :: s.log else s.log }

/-- The environment of a surface can always be had. -/
theorem runFrom_environment (id : SurfaceId) (s : Session) :
    (environment id).runFrom s = (.ok (s.registry.getOrCreate s.interpreter id).1, s.provided id) := by
  simp only [environment, runFrom_bind, runFrom_get, runFrom_set, provided]
  rcases s.registry.getOrCreate s.interpreter id with ⟨env, _ | _, registry, interpreter⟩ <;> rfl

/-- An evaluation changes nothing but the interpreter and the log once the surface has an environment. -/
theorem exists_runFrom_evaluateText (id : SurfaceId) (code : String) (s : Session) : ∃ interpreter log,
    ((evaluateText id code).runFrom s).2 = { s.provided id with interpreter, log } := by
  simp only [evaluateText, runFrom_bind, runFrom_environment, runFrom_get, runFrom_set]
  split <;> exact ⟨_, _, rfl⟩

/-- An evaluation changes no setting and no surface. -/
theorem evaluateText_frame (id : SurfaceId) (code : String) (s : Session) :
    ((evaluateText id code).runFrom s).2.settings = s.settings ∧
      ((evaluateText id code).runFrom s).2.surfaces = s.surfaces := by
  obtain ⟨interpreter, log, hrun⟩ := exists_runFrom_evaluateText id code s
  rw [hrun]
  exact ⟨rfl, rfl⟩

/-! ## Surfaces by their identifiers -/

/-- The lines of an open surface. -/
def lines? (s : Session) (id : SurfaceId) : Option (List String) :=
  (s.surfaces.lookup id).map Surface.lines

theorem lookup_replace_self {κ β : Type} [DecidableEq κ] (l : List (κ × β)) (id : κ) (x : β) :
    (l.map fun e => if e.1 = id then (id, x) else e).lookup id = (l.lookup id).map fun _ => x := by
  induction l with
  | nil => rfl
  | cons e es ih =>
    obtain ⟨k, v⟩ := e
    by_cases h : k = id
    · simp [h]
    · have hne : (id == k) = false := by simpa using Ne.symm h
      simp only [List.map_cons, h, if_false, List.lookup_cons, hne, ih]

theorem lookup_replace_of_ne (l : List (SurfaceId × Surface)) {id id' : SurfaceId} (hne : id' ≠ id) (x : Surface) :
    (l.map fun e => if e.1 = id then (id, x) else e).lookup id' = l.lookup id' := by
  have hbeq : (id' == id) = false := by simpa using hne
  induction l with
  | nil => rfl
  | cons e es ih =>
    obtain ⟨k, v⟩ := e
    by_cases h : k = id
    · simp only [List.map_cons, h, if_true, List.lookup_cons, hbeq, ih]
    · simp only [List.map_cons, h, if_false, List.lookup_cons, ih]

/-- A surface that was put is found. -/
theorem lookup_putSurface_self (l : List (SurfaceId × Surface)) (id : SurfaceId) (x : Surface) :
    (putSurface l id x).lookup id = some x := by
  unfold putSurface
  split
  · rename_i h
    obtain ⟨e, he, hid⟩ := List.any_eq_true.1 h
    have hsome : (l.lookup id).isSome = true :=
      List.lookup_isSome_iff.2 ⟨e, he, by simpa using (of_decide_eq_true hid).symm⟩
    obtain ⟨y, hy⟩ := Option.isSome_iff_exists.1 hsome
    rw [lookup_replace_self, hy, Option.map_some]
  · rename_i h
    have hnone : l.lookup id = none := by
      rw [List.lookup_eq_none_iff]
      intro e he
      have hid : e.1 ≠ id := fun hid => h (List.any_eq_true.2 ⟨e, he, by simpa using hid⟩)
      simpa using hid.symm
    rw [List.lookup_append, hnone, Option.none_or, List.lookup_cons_self]

/-- Putting a surface leaves the others alone. -/
theorem lookup_putSurface_of_ne (l : List (SurfaceId × Surface)) {id id' : SurfaceId} (hne : id' ≠ id) (x : Surface) :
    (putSurface l id x).lookup id' = l.lookup id' := by
  have hbeq : (id' == id) = false := by simpa using hne
  unfold putSurface
  split
  · exact lookup_replace_of_ne l hne x
  · rw [List.lookup_append, List.lookup_cons, hbeq, List.lookup_nil, Option.or_none]

/-! ## The run of a region -/

/-- The session in which the text of a region is evaluated: the block of its last run is gone. -/
def cleared (s : Session) (id : SurfaceId) (start : Surface) (last : Int) : Session :=
  let (removed, surface) := removeStale s.settings start last
  let log := if noteFollows s.settings start last then .removedNotes removed start.name :: s.log else s.log
  { s with registry := s.registry.touch id, surfaces := putSurface s.surfaces id surface, log }

/-- The evaluation leaves the settings that the session had before the old block went. -/
theorem settings_of_cleared {s s₁ : Session} {id : SurfaceId} {start : Surface} {last : Int} {code : String}
    {r : Except SessionError (Outcome Inspect.Value)}
    (h : (evaluateText id code).runFrom (s.cleared id start last) = (r, s₁)) : s₁.settings = s.settings := by
  have hframe := (evaluateText_frame id code (s.cleared id start last)).1
  rwa [h] at hframe

/-- What the run of a region yields once its text is evaluated: the block is put behind the region. -/
def withResult (s : Session) (id : SurfaceId) (start : Surface) (first last : Int) (block : Block) :
    Except SessionError Nat × Session :=
  let (inserted, _, final) := insertBlock s.settings (removeStale s.settings start last).2 (last + 1) block
  (.ok inserted, { s with surfaces := putSurface s.surfaces id final,
                          log := .evaluatedLines start.name first last inserted :: s.log })

variable {s : Session} {id : SurfaceId} {start : Surface} {first last : Int}

theorem runFrom_evaluateRegion_of_none (h : s.surfaces.lookup id = none) :
    (evaluateRegion id first last).runFrom s = (.error (.unknownSurface id), s) := by
  rw [evaluateRegion, runFrom_bind, runFrom_surface_of_none s h]

theorem runFrom_evaluateRegion_of_empty (h : s.surfaces.lookup id = some start)
    (hr : first < 0 ∨ min last (start.lineCount - 1) < first) :
    (evaluateRegion id first last).runFrom s = (.ok 0, { s with registry := s.registry.touch id }) := by
  rw [evaluateRegion, runFrom_bind, runFrom_surface_of_some s h]
  simp only [runFrom_bind, runFrom_touch, runFrom_get, if_pos hr, runFrom_pure]

/-- The last line of a region, cut down to the surface. -/
def lastLine (start : Surface) (last : Int) : Int :=
  min last (start.lineCount - 1)

/-- The text of the lines from `first` to `last`. -/
def textOf (start : Surface) (first last : Int) : String :=
  Text.joinLines ((start.lines.take (last + 1).toNat).drop first.toNat)

/-- Removing the old block leaves the region itself alone. -/
theorem getLines_removeStale (settings : Settings) (h0 : 0 ≤ first) (hr : first ≤ lastLine start last) :
    (removeStale settings start (lastLine start last)).2.getLines first (lastLine start last + 1) =
        (start.lines.take (lastLine start last + 1).toNat).drop first.toNat ∧
      (start.lines.take (lastLine start last + 1).toNat).drop first.toNat ≠ [] := by
  obtain ⟨k, hk⟩ : ∃ k : Nat, lastLine start last + 1 = k := ⟨(lastLine start last + 1).toNat, by omega⟩
  obtain ⟨a, rfl⟩ : ∃ a : Nat, first = a := ⟨first.toNat, by omega⟩
  have hlen : k ≤ start.lines.length := by
    simp only [lastLine, Surface.lineCount] at hk
    omega
  have hlines := lines_removeStale (s := settings) hk (by omega) hlen
  constructor
  · rw [hk, Surface.getLines_natCast, hlines, Int.toNat_natCast, Int.toNat_natCast]
    · rw [List.take_append_of_le_length (by rw [List.length_take]; omega), List.take_take, Nat.min_self]
    · rw [hlines, List.length_append, List.length_take]
      omega
    · rw [hlines, List.length_append, List.length_take]
      omega
  · refine List.ne_nil_of_length_pos ?_
    rw [hk, Int.toNat_natCast, Int.toNat_natCast, List.length_drop, List.length_take]
    omega

theorem runFrom_ite_note {α : Type} (c : Bool) (e : LogEntry) (a : Action α) :
    (if c then do note e; a else a).runFrom s = a.runFrom { s with log := if c then e :: s.log else s.log } := by
  cases c <;> rfl

/-- The run of a region that is not empty. -/
theorem runFrom_evaluateRegion (h : s.surfaces.lookup id = some start) (h0 : 0 ≤ first)
    (hr : first ≤ lastLine start last) :
    (evaluateRegion id first last).runFrom s =
      match (evaluateText id (textOf start first (lastLine start last))).runFrom
          (s.cleared id start (lastLine start last)) with
      | (.error e, s₁) => (.error e, s₁)
      | (.ok o, s₁) => s₁.withResult id start first (lastLine start last) (.ofOutcome s₁.settings s₁.shownText o) := by
  have hlast : min last (start.lineCount - 1) = lastLine start last := rfl
  have hr' : ¬ (first < 0 ∨ lastLine start last < first) := by omega
  obtain ⟨hlines, hne⟩ := getLines_removeStale s.settings h0 hr
  rw [evaluateRegion, runFrom_bind, runFrom_surface_of_some s h]
  simp only [runFrom_bind, runFrom_touch, runFrom_get, runFrom_setSurface, hlast, if_neg hr', hlines,
    List.isEmpty_eq_false_iff.2 hne, Bool.false_eq_true, if_false, runFrom_ite_note]
  rcases hrun : (evaluateText id (textOf start first (lastLine start last))).runFrom
    (s.cleared id start (lastLine start last)) with ⟨_ | o, s₁⟩
  · simp only [textOf, cleared] at hrun
    simp only [hrun]
  · have hs := settings_of_cleared hrun
    simp only [textOf, cleared] at hrun
    simp only [hrun, runFrom_note, runFrom_pure, withResult, hs]

/-! ## The lines after the run of a region -/

/-- The block that the run of a region puts behind it; none if there is no such surface, no line in the region, or no
outcome. -/
def resultBlock? (s : Session) (id : SurfaceId) (first last : Int) : Option Block :=
  match s.surfaces.lookup id with
  | none => none
  | some start =>
    let last := lastLine start last
    if 0 ≤ first ∧ first ≤ last then
      match (evaluateText id (textOf start first last)).runFrom (s.cleared id start last) with
      | (.ok o, s₁) => some (.ofOutcome s₁.settings s₁.shownText o)
      | (.error _, _) => none
    else none

/-- The run of a region comes to an end in `s'`, with `block` behind the region. -/
def Renders (id : SurfaceId) (first last : Int) (s : Session) (block : Block) (s' : Session) : Prop :=
  s.resultBlock? id first last = some block ∧ ((evaluateRegion id first last).runFrom s).2 = s'

/-- What follows from the run of a region that comes to an end. -/
theorem Renders.cases {block : Block} {s' : Session} (h : Renders id first last s block s')
    (hs : s.surfaces.lookup id = some start) :
    0 ≤ first ∧ first ≤ lastLine start last ∧ ∃ o s₁,
      (evaluateText id (textOf start first (lastLine start last))).runFrom
        (s.cleared id start (lastLine start last)) = (.ok o, s₁) ∧
      block = .ofOutcome s₁.settings s₁.shownText o ∧
      s' = (s₁.withResult id start first (lastLine start last) block).2 := by
  obtain ⟨hb, rfl⟩ := h
  simp only [resultBlock?, hs] at hb
  split at hb
  · rename_i hr
    refine ⟨hr.1, hr.2, ?_⟩
    split at hb
    · rename_i o s₁ hrun
      obtain rfl := Option.some.inj hb
      refine ⟨o, s₁, hrun, rfl, ?_⟩
      rw [runFrom_evaluateRegion hs hr.1 hr.2, hrun]
    · cases hb
  · cases hb

/-- The block of a run shows an outcome. -/
theorem Renders.exists_outcome {block : Block} {s' : Session} (h : Renders id first last s block s')
    (hs : s.surfaces.lookup id = some start) :
    ∃ (shown : Inspect.Value → String) (o : Outcome Inspect.Value), block = .ofOutcome s.settings shown o := by
  obtain ⟨-, -, o, s₁, hrun, rfl, -⟩ := h.cases hs
  exact ⟨s₁.shownText, o, by rw [settings_of_cleared hrun]⟩

/-- The lines of a surface after a run of the lines up to `last` with the block `notes`. -/
def linesAfter (settings : Settings) (last : Int) (notes lines : List String) : List String :=
  lines.take (last + 1).toNat ++ behindRun settings notes (lines.drop (last + 1).toNat)

theorem lines?_withResult_of_ne {s₁ : Session} {id' : SurfaceId} (h : id' ≠ id) (block : Block) :
    (s₁.withResult id start first last block).2.lines? id' = s₁.lines? id' := by
  simp only [lines?, withResult, lookup_putSurface_of_ne _ h]

theorem lines?_withResult {s₁ : Session} (h0 : 0 ≤ last) (hlast : last < start.lineCount) (block : Block) :
    (s₁.withResult id start first last block).2.lines? id =
      some (linesAfter s₁.settings last block.lines start.lines) := by
  obtain ⟨k, hk⟩ : ∃ k : Nat, last + 1 = k := ⟨(last + 1).toNat, by omega⟩
  have hlen : k ≤ start.lines.length := by
    simp only [Surface.lineCount] at hlast
    omega
  have hlines := lines_removeStale (s := s₁.settings) hk (by omega) hlen
  have htake : (start.lines.take k).length = k := by rw [List.length_take]; omega
  simp only [withResult, lines?, lookup_putSurface_self, Option.map_some, hk, linesAfter, Int.toNat_natCast]
  rw [lines_insertBlock (by omega) (by rw [hlines, List.length_append]; omega), hlines,
    List.take_append_of_le_length (by omega), List.take_take, Nat.min_self, List.drop_append,
    List.drop_eq_nil_of_le (by omega), htake, Nat.sub_self, List.drop_zero, List.nil_append, behindRun]
  simp only [List.append_assoc]

/-- An error of the evaluation is one of the run of the region. -/
theorem runFrom_evaluateRegion_of_error (h : s.surfaces.lookup id = some start) (h0 : 0 ≤ first)
    (hr : first ≤ lastLine start last) {e : SessionError} {s₁ : Session}
    (hrun : (evaluateText id (textOf start first (lastLine start last))).runFrom
      (s.cleared id start (lastLine start last)) = (.error e, s₁)) :
    (evaluateRegion id first last).runFrom s = (.error e, s₁) := by
  rw [runFrom_evaluateRegion h h0 hr, hrun]

/-- An outcome of the evaluation is shown behind the region. -/
theorem runFrom_evaluateRegion_of_ok (h : s.surfaces.lookup id = some start) (h0 : 0 ≤ first)
    (hr : first ≤ lastLine start last) {o : Outcome Inspect.Value} {s₁ : Session}
    (hrun : (evaluateText id (textOf start first (lastLine start last))).runFrom
      (s.cleared id start (lastLine start last)) = (.ok o, s₁)) :
    ∃ inserted s', (evaluateRegion id first last).runFrom s = (.ok inserted, s') ∧ s'.settings = s.settings ∧
      s'.lines? id = some (linesAfter s.settings (lastLine start last)
        (Block.ofOutcome s.settings s₁.shownText o).lines start.lines) := by
  have hset : s₁.settings = s.settings := settings_of_cleared hrun
  have hlast : lastLine start last < start.lineCount := by
    rw [lastLine]
    omega
  have hlines : (s₁.withResult id start first (lastLine start last)
      (.ofOutcome s₁.settings s₁.shownText o)).2.lines? id = _ := lines?_withResult (by omega) hlast _
  rw [runFrom_evaluateRegion h h0 hr, hrun]
  exact ⟨_, _, rfl, hset, hlines.trans (by rw [hset])⟩

/-- A session with one surface. -/
def ofLines (lines : List String) : Session :=
  { settings := {}, surfaces := [(.text "s", .ofLines "s" lines)] }

end Scratchpad.Session
