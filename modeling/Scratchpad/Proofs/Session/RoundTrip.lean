import Scratchpad.Proofs.Session.Active
import Scratchpad.Proofs.Session.Again

/-!
# Surfaces survive a round trip through text

A surface can be read back from its text if no line of it holds a line feed (`Unbroken`). No edit puts a line feed into
a line (`Unbroken.edit`), and every command to a surface is an edit (`edit_action`), so that this holds after any
commands. `snippets` are the texts that commands hand to the evaluator; a command that evaluates nothing changes no line
(`sameLines_of_snippet?_eq_none`). Main statement: `ofText_text_runEvaluations`.
-/

namespace Scratchpad

/-! ## Lines that are those of their text -/

/-- There is a line, and none holds a line feed. -/
def Unbroken (lines : List String) : Prop :=
  lines ≠ [] ∧ ∀ l ∈ lines, '\n' ∉ l.toList

theorem lines_ofText (name text : String) : (Surface.ofText name text).lines = Text.splitLines text :=
  Surface.orEmptyLine_of_ne_nil (Text.splitLines_ne_nil text)

theorem unbroken_ofText (name text : String) : Unbroken (Surface.ofText name text).lines := by
  rw [lines_ofText]
  exact ⟨Text.splitLines_ne_nil text, fun _ hl => Text.not_mem_of_mem_splitLines hl⟩

/-- A surface with unbroken lines is read back from its text. -/
theorem Unbroken.lines_ofText_text {x : Surface} (h : Unbroken x.lines) (name : String) :
    (Surface.ofText name x.text).lines = x.lines := by
  rw [lines_ofText, Surface.text, Text.splitLines_joinLines h.1 h.2]

section Edits

variable {s : Settings} {lines lines' : List String}

/-- No line of a block holds a line feed, unless a mark does. -/
theorem no_line_feed_of_mem_block {α : Type} (hmarks : ∀ r, '\n' ∉ (s.mark r).toList) {shown : α → String}
    {o : Outcome α} {l : String} (h : l ∈ (Block.ofOutcome s shown o).lines) : '\n' ∉ l.toList := by
  obtain ⟨r, text, piece, hpiece, rfl⟩ := exists_mark_of_mem_lines h
  rw [String.toList_append, List.mem_append]
  rintro (hr | hp)
  · exact hmarks r hr
  · exact Text.not_mem_of_mem_splitLines hpiece hp

theorem no_line_feed_of_mem_separatorFor {behind : List String} {l : String} (h : l ∈ separatorFor s behind) :
    '\n' ∉ l.toList := by
  unfold separatorFor at h
  split at h
  · rw [List.mem_singleton.1 h]
    simp
  · cases h

/-- No edit puts a line feed into a line. -/
theorem Unbroken.edit (hmarks : ∀ r, '\n' ∉ (s.mark r).toList) (h : Unbroken lines) (he : Edit s lines lines') :
    Unbroken lines' := by
  obtain ⟨hne, hlines⟩ := h
  have hfront : ∀ {k : Nat} (rest : List String), 0 < k → lines.take k ++ rest ≠ [] := fun rest h0 hnil => by
    rw [List.append_eq_nil_iff, List.take_eq_nil_iff] at hnil
    exact hnil.1.elim (Nat.ne_of_gt h0) hne
  cases he with
  | none => exact ⟨hne, hlines⟩
  | cleared h0 =>
    refine ⟨hfront _ h0, fun l hl => hlines l ?_⟩
    rcases List.mem_append.1 hl with hl | hl
    · exact List.mem_of_mem_take hl
    · exact List.mem_of_mem_drop (List.mem_of_mem_drop hl)
  | annotated h0 shown o =>
    refine ⟨hfront _ h0, fun l hl => ?_⟩
    simp only [behindRun, List.mem_append] at hl
    rcases hl with hl | (hl | hl) | hl
    · exact hlines l (List.mem_of_mem_take hl)
    · exact no_line_feed_of_mem_block hmarks hl
    · exact no_line_feed_of_mem_separatorFor hl
    · exact hlines l (List.mem_of_mem_drop (List.mem_of_mem_drop hl))

end Edits

namespace Session

variable {s s' : Session} {id : SurfaceId} {start : Surface}

/-! ## What a command evaluates -/

/-- The first and the last line that a command asks to evaluate; none if it finds no code. -/
def Evaluation.range? (settings : Settings) (lines : List String) : Evaluation → Option (Int × Int)
  | line n => some (n, n)
  | block n => (blockRegion? settings lines n).map fun r => (r.1, r.2)
  | region first last => some (first, last)
  | selection a b => some (min a b, max a b)
  | surface => (surfaceRegion? settings lines).map fun r => (r.1, r.2)

/-- The text that a command hands to the evaluator; none if the surface is not open or there is no line to evaluate. -/
def snippet? (s : Session) (id : SurfaceId) (e : Evaluation) : Option String := do
  let start ← s.surfaces.lookup id
  let (first, last) ← e.range? s.settings start.lines
  if 0 ≤ first ∧ first ≤ lastLine start last then some (textOf start first (lastLine start last)) else none

/-- The texts that commands to surfaces hand to the evaluator, the first one first. -/
def snippets : List (SurfaceId × Evaluation) → Session → List String
  | [], _ => []
  | (id, e) :: more, s => (s.snippet? id e).toList ++ snippets more ((e.action id).runFrom s).2

/-- Two sessions with the same settings, the same state of the interpreter, and the same lines on every surface. -/
structure SameLines (s s' : Session) : Prop where
  settings : s'.settings = s.settings
  interpreter : s'.interpreter = s.interpreter
  lines : ∀ id, s'.lines? id = s.lines? id

theorem SameLines.refl (s : Session) : SameLines s s := ⟨rfl, rfl, fun _ => rfl⟩

theorem SameLines.trans {s₁ s₂ s₃ : Session} (h : SameLines s₁ s₂) (h' : SameLines s₂ s₃) : SameLines s₁ s₃ :=
  ⟨h'.settings.trans h.settings, h'.interpreter.trans h.interpreter, fun id => (h'.lines id).trans (h.lines id)⟩

/-- Moving a cursor changes no line. -/
theorem sameLines_setCursor {α : Type} (a : α) (line : Int) (s : Session) :
    SameLines s ((edit id fun x => (a, x.setCursor line)).runFrom s).2 := by
  cases h : s.surfaces.lookup id with
  | none =>
    rw [edit, runFrom_bind, runFrom_surface_of_none s h]
    exact .refl s
  | some x =>
    rw [runFrom_edit s h]
    refine ⟨rfl, rfl, fun id' => ?_⟩
    by_cases hid : id' = id
    · rw [hid, lines?, lookup_putSurface_self, lines?, h]
      rfl
    · rw [lines?, lookup_putSurface_of_ne _ hid, lines?]

theorem sameLines_bind_setCursor (a : Action Nat) (f : Nat → Int) (s : Session) :
    SameLines (a.runFrom s).2 ((do let n ← a; edit id fun x => (n, x.setCursor (f n))).runFrom s).2 := by
  rw [runFrom_bind]
  rcases a.runFrom s with ⟨_ | n, s'⟩
  · exact .refl s'
  · exact sameLines_setCursor n (f n) s'

/-- A command does nothing, or the run of its range and after it moves a cursor. -/
theorem sameLines_action (hs : s.surfaces.lookup id = some start) (e : Evaluation) :
    match e.range? s.settings start.lines with
    | none => (e.action id).runFrom s = (.ok 0, s)
    | some (first, last) => SameLines ((evaluateRegion id first last).runFrom s).2 ((e.action id).runFrom s).2 := by
  cases e with
  | line n =>
    rw [Evaluation.range?, Evaluation.action, evaluateLine, runFrom_bind, runFrom_surface_of_some s hs]
    exact sameLines_bind_setCursor _ (fun k => n + k) s
  | block n =>
    rw [Evaluation.range?, Evaluation.action, runFrom_evaluateBlock hs]
    cases blockRegion? s.settings start.lines n with
    | none => rfl
    | some r => exact sameLines_bind_setCursor _ (fun k => r.2 + k) s
  | region first last => exact .refl _
  | selection a b =>
    rw [Evaluation.range?, Evaluation.action, evaluateSelection, runFrom_bind, runFrom_surface_of_some s hs]
    exact sameLines_bind_setCursor _ (fun k => max a b + k) s
  | surface =>
    rw [Evaluation.range?, Evaluation.action, runFrom_evaluateSurface hs]
    cases surfaceRegion? s.settings start.lines with
    | none => rfl
    | some r => exact sameLines_bind_setCursor _ (fun k => r.2 + k) s

/-- A command that evaluates nothing changes neither a line nor the state of the interpreter. -/
theorem sameLines_of_snippet?_eq_none {e : Evaluation} (h : s.snippet? id e = none) :
    SameLines s ((e.action id).runFrom s).2 := by
  cases hs : s.surfaces.lookup id with
  | none =>
    have hid : id ∉ s.ids := fun hmem => by
      obtain ⟨x, hx⟩ := mem_ids_iff.1 hmem
      cases hs.symm.trans hx
    rw [runFrom_action_of_not_mem hid]
    exact .refl s
  | some start =>
    have hrun := sameLines_action hs e
    simp only [snippet?, hs, Option.bind_eq_bind, Option.bind_some] at h
    rcases hrange : e.range? s.settings start.lines with _ | ⟨first, last⟩
    · rw [hrange] at hrun
      rw [show (e.action id).runFrom s = (.ok 0, s) from hrun]
      exact .refl s
    · rw [hrange] at hrun
      simp only [hrange, Option.bind_some, ite_eq_right_iff, reduceCtorEq, imp_false] at h
      have hempty : SameLines s ((evaluateRegion id first last).runFrom s).2 := by
        rw [runFrom_evaluateRegion_of_empty hs (by rw [lastLine] at h; omega)]
        exact ⟨rfl, rfl, fun _ => rfl⟩
      exact hempty.trans hrun

/-! ## Commands edit lines -/

/-- A command edits lines, and keeps the settings. -/
theorem edit_action (s : Session) (id : SurfaceId) (e : Evaluation) :
    ((e.action id).runFrom s).2.settings = s.settings ∧
      ∀ id', (s.lines? id').Rel (Edit s.settings) (((e.action id).runFrom s).2.lines? id') := by
  cases hs : s.surfaces.lookup id with
  | none =>
    have hsame : SameLines s ((e.action id).runFrom s).2 :=
      sameLines_of_snippet?_eq_none (by rw [snippet?, hs]; rfl)
    exact ⟨hsame.settings, fun id' => hsame.lines id' ▸ edit_none _ _⟩
  | some start =>
    have hrun := sameLines_action hs e
    rcases hrange : e.range? s.settings start.lines with _ | ⟨first, last⟩
    · rw [hrange] at hrun
      rw [show (e.action id).runFrom s = (.ok 0, s) from hrun]
      exact ⟨rfl, fun _ => edit_none _ _⟩
    · rw [hrange] at hrun
      obtain ⟨hset, hedit⟩ := edit_evaluateRegion s id first last
      exact ⟨hrun.settings.trans hset, fun id' => hrun.lines id' ▸ hedit id'⟩

/-- After any commands the lines of a surface are unbroken if they were before them. -/
theorem unbroken_runEvaluations (hmarks : ∀ r, '\n' ∉ (s.settings.mark r).toList) (es : List (SurfaceId × Evaluation))
    {lines : List String} (hlines : s.lines? id = some lines) (h : Unbroken lines) :
    ∃ lines', (runEvaluations es s).lines? id = some lines' ∧ Unbroken lines' := by
  induction es generalizing s lines with
  | nil => exact ⟨lines, hlines, h⟩
  | cons e more ih =>
    obtain ⟨hset, hedit⟩ := edit_action s e.1 e.2
    have hrel := hedit id
    rw [hlines] at hrel
    generalize hnext : ((e.2.action e.1).runFrom s).2.lines? id = next at hrel
    cases hrel with
    | some he => exact ih (hset ▸ hmarks) hnext (h.edit hmarks he)

/-- Commands that evaluate nothing change no line. -/
theorem sameLines_runEvaluations {es : List (SurfaceId × Evaluation)} (h : snippets es s = []) :
    SameLines s (runEvaluations es s) := by
  induction es generalizing s with
  | nil => exact .refl s
  | cons e more ih =>
    obtain ⟨hfirst, hmore⟩ := List.append_eq_nil_iff.1 h
    exact (sameLines_of_snippet?_eq_none (Option.toList_eq_nil_iff.1 hfirst)).trans (ih hmore)

/-- A surface that was read from a text is read back from its text after any commands, as long as no mark holds a line
feed. Its text is the one that it was read from if the commands evaluated nothing. -/
theorem ofText_text_runEvaluations {name t : String} (hmarks : ∀ r, '\n' ∉ (s.settings.mark r).toList)
    (hs : s.surfaces.lookup id = some (.ofText name t)) (es : List (SurfaceId × Evaluation)) :
    ∃ x, (runEvaluations es s).surfaces.lookup id = some x ∧ (Surface.ofText name x.text).lines = x.lines ∧
      (snippets es s = [] → x.text = t) := by
  have hlines : s.lines? id = some (Surface.ofText name t).lines := by rw [lines?, hs, Option.map_some]
  obtain ⟨lines', hlines', hunbroken⟩ := unbroken_runEvaluations hmarks es hlines (unbroken_ofText name t)
  obtain ⟨x, hx, rfl⟩ := Option.map_eq_some_iff.1 hlines'
  refine ⟨x, hx, hunbroken.lines_ofText_text name, fun hnone => ?_⟩
  have hsame := (sameLines_runEvaluations hnone).lines id
  rw [hlines, hlines', Option.some.injEq, lines_ofText] at hsame
  rw [Surface.text, hsame, Text.joinLines_splitLines]

/-- Three lines, the last one empty, are read back with a block behind the first one. Commands to what is no line and to
another surface leave the text alone. -/
theorem ofText_text_runEvaluations_trailing :
    let s : Session := { settings := {}, surfaces := [(.number 1, .ofText "s" "=\nx\n")] }
    let s' := runEvaluations [(.number 1, .line 0), (.number 1, .selection 7 5)] s
    (∃ x, s'.surfaces.lookup (.number 1) = some x ∧ (Surface.ofText "s" x.text).lines = x.lines ∧
      x.lines = ["=", "-- Error: luapad:1: unexpected symbol near '='", "", "x", ""]) ∧
    ∃ x, (runEvaluations [(.number 1, .region 5 7), (.text "t", .surface)] s).surfaces.lookup (.number 1) = some x ∧
      x.text = "=\nx\n" := by
  intro s s'
  have hmarks : ∀ r, '\n' ∉ (s.settings.mark r).toList := by
    intro r
    cases r <;> decide
  have hs : s.surfaces.lookup (.number 1) = some (.ofText "s" "=\nx\n") := rfl
  obtain ⟨x, hx, hback, -⟩ := ofText_text_runEvaluations hmarks hs [(.number 1, .line 0), (.number 1, .selection 7 5)]
  obtain ⟨y, hy, -, hsame⟩ := ofText_text_runEvaluations hmarks hs [(.number 1, .region 5 7), (.text "t", .surface)]
  have hlines : s'.lines? (.number 1) = some ["=", "-- Error: luapad:1: unexpected symbol near '='", "", "x", ""] := by
    decide +kernel
  rw [lines?, hx, Option.map_some, Option.some.injEq] at hlines
  exact ⟨⟨x, hx, hback, hlines⟩, y, hy, hsame (by decide +kernel)⟩

end Session

end Scratchpad
