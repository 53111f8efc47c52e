import Scratchpad.Proofs.Session.Edit
import Scratchpad.Proofs.Settings

/-!
# Code is never lost

The lines of a surface that are neither empty nor notes are its code (`codeLines`). Removal of an old block and insertion
of a new one leave the code alone (`codeLines_edit`), and so does every command that evaluates a part of a surface
(`keepsCode_action`), whatever comes of the evaluation. By induction the code of every surface is the same after any
commands (`code?_runEvaluations`).
-/

namespace Scratchpad

/-! ## The code among some lines -/

/-- A line that is neither empty nor a note. -/
def Settings.isCode (s : Settings) (line : String) : Bool :=
  line ≠ "" && !s.isNote line

/-- The lines of code, in order. -/
def codeLines (s : Settings) (lines : List String) : List String :=
  lines.filter s.isCode

section Lines

variable {s : Settings}

theorem codeLines_append (a b : List String) : codeLines s (a ++ b) = codeLines s a ++ codeLines s b :=
  List.filter_append a b

theorem codeLines_notes {notes : List String} (h : ∀ l ∈ notes, s.isNote l = true) : codeLines s notes = [] := by
  refine List.filter_eq_nil_iff.2 fun l hl => ?_
  simp [Settings.isCode, h l hl]

theorem codeLines_separatorFor (behind : List String) : codeLines s (separatorFor s behind) = [] := by
  unfold separatorFor
  split <;> simp [codeLines, Settings.isCode]

/-- What goes with an old block is no code. -/
theorem codeLines_afterStale (behind : List String) : codeLines s (afterStale s behind) = codeLines s behind := by
  induction behind with
  | nil => rfl
  | cons l rest ih =>
    by_cases he : l = ""
    · cases hsep : s.separate <;> simp [afterStale, staleLength, codeLines, Settings.isCode, he, hsep]
    · by_cases hn : s.isNote l
      · have hdrop : afterStale s (l :: rest) = afterStale s rest := by simp [afterStale, staleLength, he, hn]
        have hcode : codeLines s (l :: rest) = codeLines s rest := by simp [codeLines, Settings.isCode, hn]
        rw [hdrop, hcode, ih]
      · simp [afterStale, staleLength, he, hn]

theorem codeLines_behindRun {notes : List String} (h : ∀ l ∈ notes, s.isNote l = true) (behind : List String) :
    codeLines s (behindRun s notes behind) = codeLines s behind := by
  rw [behindRun, codeLines_append, codeLines_append, codeLines_notes h, codeLines_separatorFor, codeLines_afterStale]
  rfl

end Lines

namespace Session

/-- The code of an open surface. -/
def code? (s : Session) (id : SurfaceId) : Option (List String) :=
  (s.lines? id).map (codeLines s.settings)

/-! ## Actions that keep the code -/

/-- Two sessions with the same settings and the same code on every surface. -/
def SameCode (s s' : Session) : Prop :=
  s'.settings = s.settings ∧ ∀ id, s'.code? id = s.code? id

/-- The action leaves the code of every surface alone, also if it fails. -/
def KeepsCode {α : Type} (a : Action α) : Prop :=
  ∀ s : Session, s.settings.Valid → SameCode s (a.runFrom s).2

section Keeps

variable {α β : Type} {s s' : Session} {id : SurfaceId}

theorem SameCode.refl (s : Session) : SameCode s s := ⟨rfl, fun _ => rfl⟩

theorem SameCode.trans {s₁ s₂ s₃ : Session} (h : SameCode s₁ s₂) (h' : SameCode s₂ s₃) : SameCode s₁ s₃ :=
  ⟨h'.1.trans h.1, fun id => (h'.2 id).trans (h.2 id)⟩

/-- Surfaces with the same code in place of the old ones. -/
theorem SameCode.of_put {start x : Surface} (hset : s'.settings = s.settings)
    (hs : s.surfaces.lookup id = some start) (hput : s'.surfaces = putSurface s.surfaces id x)
    (hx : codeLines s.settings x.lines = codeLines s.settings start.lines) : SameCode s s' := by
  refine ⟨hset, fun id' => ?_⟩
  rw [code?, code?, lines?, lines?, hset, hput]
  by_cases h : id' = id
  · rw [h, lookup_putSurface_self, hs, Option.map_some, Option.map_some, Option.map_some, Option.map_some, hx]
  · rw [lookup_putSurface_of_ne _ h]

theorem keepsCode_pure (a : α) : KeepsCode (pure a : Action α) := fun s _ => SameCode.refl s

theorem KeepsCode.bind {a : Action α} {f : α → Action β} (ha : KeepsCode a) (hf : ∀ x, KeepsCode (f x)) :
    KeepsCode (a >>= f) := by
  intro s hv
  have hs := ha s hv
  rw [runFrom_bind]
  rcases hrun : a.runFrom s with ⟨_ | x, s₁⟩
  · rwa [hrun] at hs
  · rw [hrun] at hs
    exact hs.trans (hf x s₁ (hs.1 ▸ hv))

theorem keepsCode_get : KeepsCode (get : Action Session) := fun s _ => SameCode.refl s

theorem keepsCode_surface : KeepsCode (surface id) := by
  intro s _
  cases h : s.surfaces.lookup id with
  | none => rw [runFrom_surface_of_none s h]; exact SameCode.refl s
  | some x => rw [runFrom_surface_of_some s h]; exact SameCode.refl s

/-- Moving the cursor changes no line. -/
theorem keepsCode_setCursor (a : α) (line : Int) : KeepsCode (edit id fun x => (a, x.setCursor line)) := by
  intro s _
  rw [edit, runFrom_bind]
  cases h : s.surfaces.lookup id with
  | none => rw [runFrom_surface_of_none s h]; exact SameCode.refl s
  | some x => rw [runFrom_surface_of_some s h]; exact SameCode.of_put rfl h rfl rfl

/-- No way in which lines change takes code away. -/
theorem codeLines_edit {settings : Settings} (hv : settings.Valid) {lines lines' : List String}
    (h : Edit settings lines lines') : codeLines settings lines' = codeLines settings lines := by
  cases h with
  | none => rfl
  | cleared => rw [codeLines_append, codeLines_afterStale, ← codeLines_append, List.take_append_drop]
  | annotated =>
    rw [codeLines_append, codeLines_behindRun fun l hl => isNote_of_mem_lines hv hl, ← codeLines_append,
      List.take_append_drop]

/-- The run of a region keeps the code, whether it ends in a block or in an error. -/
theorem keepsCode_evaluateRegion (first last : Int) : KeepsCode (evaluateRegion id first last) := by
  intro s hv
  obtain ⟨hset, hedit⟩ := edit_evaluateRegion s id first last
  refine ⟨hset, fun id' => ?_⟩
  have hlines := hedit id'
  rw [code?, code?, hset]
  generalize s.lines? id' = before, ((evaluateRegion id first last).runFrom s).2.lines? id' = after at hlines ⊢
  cases hlines with
  | none => rfl
  | some h => exact congrArg some (codeLines_edit hv h)

/-- The run of the code among some lines keeps the code. -/
theorem keepsCode_evaluateCode (first last : Nat) : KeepsCode (evaluateCode id first last) := by
  refine keepsCode_surface.bind fun x => keepsCode_get.bind fun s => ?_
  split
  · exact keepsCode_pure 0
  · exact (keepsCode_evaluateRegion _ _).bind fun n => keepsCode_setCursor n _

end Keeps

/-! ## Commands -/

/-- The commands that evaluate a part of a surface. -/
inductive Evaluation where
  | line (n : Int)
  | block (n : Int)
  | region (first last : Int)
  | selection (a b : Int)
  | surface

/-- What a command does to a surface. -/
def Evaluation.action (id : SurfaceId) : Evaluation → Action Nat
  | line n => evaluateLine id n
  | block n => evaluateBlock id n
  | region first last => evaluateRegion id first last
  | selection a b => evaluateSelection id a b
  | surface => evaluateSurface id

/-- The session after commands to surfaces; a command that fails is no end. -/
def runEvaluations : List (SurfaceId × Evaluation) → Session → Session
  | [], s => s
  | (id, e) :: more, s => runEvaluations more ((e.action id).runFrom s).2

/-- Every command keeps the code. -/
theorem keepsCode_action (id : SurfaceId) (e : Evaluation) : KeepsCode (e.action id) := by
  cases e with
  | line n =>
    exact keepsCode_surface.bind fun _ => (keepsCode_evaluateRegion n n).bind fun k => keepsCode_setCursor k _
  | block n =>
    refine keepsCode_surface.bind fun x => ?_
    split
    · exact keepsCode_pure 0
    · exact keepsCode_evaluateCode _ _
  | region first last => exact keepsCode_evaluateRegion first last
  | selection a b =>
    exact keepsCode_surface.bind fun _ => (keepsCode_evaluateRegion _ _).bind fun k => keepsCode_setCursor k _
  | surface => exact keepsCode_surface.bind fun x => keepsCode_evaluateCode _ _

theorem sameCode_runEvaluations {s : Session} (hv : s.settings.Valid) (es : List (SurfaceId × Evaluation)) :
    SameCode s (runEvaluations es s) := by
  induction es generalizing s with
  | nil => exact SameCode.refl s
  | cons e more ih =>
    have hs := keepsCode_action e.1 e.2 s hv
    exact hs.trans (ih (hs.1 ▸ hv))

/-- After any commands each surface has the code that it had before them, in the same order. -/
theorem code?_runEvaluations {s : Session} (hv : s.settings.Valid) (es : List (SurfaceId × Evaluation))
    (id : SurfaceId) : (runEvaluations es s).code? id = s.code? id :=
  (sameCode_runEvaluations hv es).2 id

/-- The code around a note and two results outlives four commands, one of them on no surface. -/
theorem code?_runEvaluations_note_kept :
    (runEvaluations [(.text "s", .surface), (.number 1, .line 0), (.text "s", .selection 7 (-1)), (.text "s", .block 0)]
      (ofLines ["=", "-- => 7", "", "-- a remark", "y"])).code? (.text "s") = some ["=", "-- a remark", "y"] := by
  rw [code?_runEvaluations Settings.valid_default]
  decide +kernel

end Session

end Scratchpad
