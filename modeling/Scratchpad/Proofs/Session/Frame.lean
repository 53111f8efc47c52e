import Scratchpad.Proofs.Session.Code

/-!
# What commands keep to

An action does what its parts do. `Does` is a relation between the sessions before and after an action, and `Frame` a
relation that the parts of commands to a surface keep to. Main statement: so does every command (`Frame.action`).
-/

namespace Scratchpad.Session

/-- The sessions before and after the action are related, also if it fails. -/
def Does {α : Type} (R : Session → Session → Prop) (a : Action α) : Prop :=
  ∀ s : Session, R s (a.runFrom s).2

/-- A relation that all parts of a command to the surface `id` keep to. -/
structure Frame (R : Session → Session → Prop) (id : SurfaceId) : Prop where
  refl (s : Session) : R s s
  trans {s₁ s₂ s₃ : Session} (h : R s₁ s₂) (h' : R s₂ s₃) : R s₁ s₃
  touch : Does R (Session.touch id)
  note (e : LogEntry) : Does R (Session.note e)
  setSurface (x : Surface) : Does R (Session.setSurface id x)
  evaluateText (code : String) : Does R (Session.evaluateText id code)

namespace Frame

variable {α β : Type} {R : Session → Session → Prop} {id : SurfaceId}

theorem pure (hR : Frame R id) (x : α) : Does R (Pure.pure x : Action α) :=
  hR.refl

theorem get (hR : Frame R id) : Does R (MonadState.get : Action Session) :=
  hR.refl

theorem bind (hR : Frame R id) {a : Action α} {f : α → Action β} (ha : Does R a) (hf : ∀ x, Does R (f x)) :
    Does R (a >>= f) := by
  intro s
  have hs := ha s
  rw [runFrom_bind]
  rcases hrun : a.runFrom s with ⟨_ | x, s₁⟩
  · rwa [hrun] at hs
  · rw [hrun] at hs
    exact hR.trans hs (hf x s₁)

theorem surface (hR : Frame R id) : Does R (Session.surface id) := by
  intro s
  cases h : s.surfaces.lookup id with
  | none => rw [runFrom_surface_of_none s h]; exact hR.refl s
  | some x => rw [runFrom_surface_of_some s h]; exact hR.refl s

theorem edit (hR : Frame R id) (f : Surface → α × Surface) : Does R (Session.edit id f) :=
  hR.bind hR.surface fun x => hR.bind (hR.setSurface (f x).2) fun _ => hR.pure (f x).1

theorem evaluateRegion (hR : Frame R id) (first last : Int) : Does R (Session.evaluateRegion id first last) := by
  -- The region has lines, and the old block is gone.
  have hrest : ∀ (settings : Settings) (start cleared : Surface) (last : Int), Does R (do
      let lines := cleared.getLines first (last + 1)
      if lines.isEmpty then return 0
      let outcome ← Session.evaluateText id (Text.joinLines lines)
      let block := Block.ofOutcome settings (shownText (← MonadState.get)) outcome
      let inserted := insertBlock settings cleared (last + 1) block
      Session.setSurface id inserted.2.2
      Session.note (.evaluatedLines start.name first last inserted.1)
      return inserted.1) := by
    intro settings start cleared last
    dsimp only
    split
    · exact hR.pure 0
    · exact hR.bind (hR.evaluateText _) fun _ => hR.bind hR.get fun _ =>
        hR.bind (hR.setSurface _) fun _ => hR.bind (hR.note _) fun _ => hR.pure _
  refine hR.bind hR.surface fun start => hR.bind hR.touch fun _ => hR.bind hR.get fun s => ?_
  dsimp only
  split
  · exact hR.pure 0
  · refine hR.bind (hR.setSurface _) fun _ => ?_
    split
    · exact hR.bind (hR.note _) fun _ => hrest _ _ _ _
    · exact hrest _ _ _ _

theorem evaluateCode (hR : Frame R id) (first last : Nat) : Does R (Session.evaluateCode id first last) := by
  refine hR.bind hR.surface fun x => hR.bind hR.get fun s => ?_
  split
  · exact hR.pure 0
  · exact hR.bind (hR.evaluateRegion _ _) fun _ => hR.edit _

/-- Every command keeps to what all of its parts keep to. -/
theorem action (hR : Frame R id) (e : Evaluation) : Does R (e.action id) := by
  cases e with
  | line n => exact hR.bind hR.surface fun _ => hR.bind (hR.evaluateRegion n n) fun _ => hR.edit _
  | block n =>
    refine hR.bind hR.surface fun x => ?_
    split
    · exact hR.pure 0
    · exact hR.evaluateCode _ _
  | region first last => exact hR.evaluateRegion first last
  | selection a b => exact hR.bind hR.surface fun _ => hR.bind (hR.evaluateRegion _ _) fun _ => hR.edit _
  | surface => exact hR.bind hR.surface fun x => hR.evaluateCode _ _

end Frame

end Scratchpad.Session
