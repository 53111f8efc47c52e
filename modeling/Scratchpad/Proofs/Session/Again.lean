import Scratchpad.Proofs.Paragraph
import Scratchpad.Proofs.Session.Run
import Scratchpad.Proofs.Settings

/-!
# The region of a further run

A command that evaluates the paragraph around a line, or the whole surface, looks for its region anew in every run.
`Reruns` are runs of the command without an error, one after the other; `RunsRegion` says which lines a run hands to the
evaluator and where their result goes. Main statement: every further run evaluates the lines that the first one
evaluated (`runsOn_reruns`). The invariants that carry it are on the lines behind the region: for the surface none of
them is code, for the paragraph they begin with notes and a blank line (`Parted`).
-/

namespace Scratchpad.Session

variable {id : SurfaceId} {s t : Session} {start : Surface} {first last : Nat}

/-! ## The run of a region and the cursor behind it -/

/-- The run of the action hands the evaluator `text`, the text of the lines from `first` to `last`. An error of the
evaluator is one of the run, and an outcome is shown right behind line `last`. -/
def RunsRegion (a : Action Nat) (id : SurfaceId) (first last : Nat) (text : String) (t : Session) : Prop :=
  ∃ start, t.surfaces.lookup id = some start ∧ first ≤ last ∧ last < start.lines.length ∧
    text = textOf start first last ∧
    (∀ e t₁, (evaluateText id text).runFrom (t.cleared id start last) = (.error e, t₁) →
      a.runFrom t = (.error e, t₁)) ∧
    ∀ o t₁, (evaluateText id text).runFrom (t.cleared id start last) = (.ok o, t₁) →
      (∃ n, (a.runFrom t).1 = .ok n) ∧ (a.runFrom t).2.settings = t.settings ∧
        (a.runFrom t).2.lines? id = some (linesAfter t.settings last
          (Block.ofOutcome t₁.settings t₁.shownText o).lines start.lines)

/-- The run of a region and the move of the cursor behind its result. -/
def runAndMove (id : SurfaceId) (first last : Nat) : Action Nat := do
  let inserted ← evaluateRegion id first last
  edit id fun s => (inserted, s.setCursor (last + inserted))

/-- Moving the cursor of an open surface changes no line. -/
theorem runFrom_setCursor (h : t.surfaces.lookup id = some start) (n : Nat) (line : Int) :
    ((edit id fun x => (n, x.setCursor line)).runFrom t).1 = .ok n ∧
      ((edit id fun x => (n, x.setCursor line)).runFrom t).2.settings = t.settings ∧
      ((edit id fun x => (n, x.setCursor line)).runFrom t).2.lines? id = t.lines? id := by
  rw [runFrom_edit t h]
  refine ⟨rfl, rfl, ?_⟩
  rw [lines?, lookup_putSurface_self, lines?, h]
  rfl

theorem runsRegion_runAndMove (hs : t.surfaces.lookup id = some start) (hle : first ≤ last)
    (hlast : last < start.lines.length) :
    RunsRegion (runAndMove id first last) id first last (textOf start first last) t := by
  have hline : lastLine start last = last := by
    rw [lastLine, Surface.lineCount]
    omega
  have h0 : (0 : Int) ≤ first := Int.natCast_nonneg first
  have hr : (first : Int) ≤ lastLine start last := by omega
  refine ⟨start, hs, hle, hlast, rfl, fun e t₁ he => ?_, fun o t₁ ho => ?_⟩
  · rw [← hline] at he
    rw [runAndMove, runFrom_bind, runFrom_evaluateRegion_of_error hs h0 hr he]
  · rw [← hline] at ho
    obtain ⟨n, t', hrun, hset, hlines⟩ := runFrom_evaluateRegion_of_ok hs h0 hr ho
    rw [hline] at hlines
    obtain ⟨final, hfinal, -⟩ := Option.map_eq_some_iff.1 hlines
    obtain ⟨hok, hsettings, hmoved⟩ := runFrom_setCursor hfinal n (last + n)
    have hset₁ : t₁.settings = t.settings := settings_of_cleared ho
    rw [runAndMove, runFrom_bind, hrun, hset₁]
    exact ⟨⟨n, hok⟩, hsettings.trans hset, hmoved.trans hlines⟩

theorem RunsRegion.of_runFrom_eq {a b : Action Nat} {text : String} (hab : a.runFrom t = b.runFrom t)
    (h : RunsRegion b id first last text t) : RunsRegion a id first last text t := by
  rw [RunsRegion, hab]
  exact h

/-- The commands that look for their region do nothing if there is none. -/
theorem runFrom_evaluateCode (hs : t.surfaces.lookup id = some start) (a b : Nat) :
    (evaluateCode id a b).runFrom t = match codeRegion? t.settings start.lines a b with
      | none => (.ok 0, t)
      | some (first, last) => (runAndMove id first last).runFrom t := by
  rw [evaluateCode, runFrom_bind, runFrom_surface_of_some t hs, codeRegion?]
  simp only [runFrom_bind, runFrom_get]
  cases codeEnd? t.settings ((start.lines.take (b + 1)).drop a) a <;> rfl

theorem runFrom_evaluateSurface (hs : t.surfaces.lookup id = some start) :
    (evaluateSurface id).runFrom t = match surfaceRegion? t.settings start.lines with
      | none => (.ok 0, t)
      | some (first, last) => (runAndMove id first last).runFrom t := by
  rw [evaluateSurface, runFrom_bind, runFrom_surface_of_some t hs]
  exact runFrom_evaluateCode hs 0 _

theorem runFrom_evaluateBlock (hs : t.surfaces.lookup id = some start) (line : Int) :
    (evaluateBlock id line).runFrom t = match blockRegion? t.settings start.lines line with
      | none => (.ok 0, t)
      | some (first, last) => (runAndMove id first last).runFrom t := by
  rw [evaluateBlock, runFrom_bind, runFrom_surface_of_some t hs, blockRegion?]
  dsimp only
  cases paragraph? start.lines line with
  | none => rfl
  | some r => exact runFrom_evaluateCode hs r.1 r.2

/-! ## Further runs -/

/-- Runs of an action one after the other, none of which fails. In between anything may change but the settings and the
lines of the surface. -/
inductive Reruns (a : Action Nat) (id : SurfaceId) (s : Session) : Session → Prop
  | refl : Reruns a id s s
  | run {t t' : Session} {n : Nat} (h : Reruns a id s t) (hok : (a.runFrom t).1 = .ok n)
      (hset : t'.settings = (a.runFrom t).2.settings) (hlines : t'.lines? id = (a.runFrom t).2.lines? id) :
      Reruns a id s t'

/-- What a run evaluates: nothing, or the lines of a region. -/
def RunsOn (a : Action Nat) (id : SurfaceId) (start : Surface) (region : Option (Nat × Nat)) (t : Session) : Prop :=
  match region with
  | none => a.runFrom t = (.ok 0, t)
  | some (first, last) => RunsRegion a id first last (textOf start first last) t

/-- An action that does nothing on a surface with the same lines does nothing in a further run. -/
theorem Reruns.nothing {a : Action Nat} (hs : s.surfaces.lookup id = some start)
    (hrun : ∀ t start', t.settings = s.settings → t.surfaces.lookup id = some start' → start'.lines = start.lines →
      a.runFrom t = (.ok 0, t)) (h : Reruns a id s t) : a.runFrom t = (.ok 0, t) := by
  have hstay : t.settings = s.settings ∧ ∃ start', t.surfaces.lookup id = some start' ∧ start'.lines = start.lines := by
    induction h with
    | refl => exact ⟨rfl, start, hs, rfl⟩
    | run h hok hset hlines ih =>
      obtain ⟨hsettings, start', hs', hsame⟩ := ih
      rw [hrun _ start' hsettings hs' hsame] at hset hlines
      rw [lines?, lines?, hs', Option.map_some] at hlines
      obtain ⟨start'', hs'', hsame'⟩ := Option.map_eq_some_iff.1 hlines
      exact ⟨hset.trans hsettings, start'', hs'', hsame'.trans hsame⟩
  obtain ⟨hsettings, start', hs', hsame⟩ := hstay
  exact hrun t start' hsettings hs' hsame

/-- An action that evaluates the same region behind which anything with a property stands, and puts something with this
property there, evaluates this region in a further run. -/
theorem Reruns.runsRegion {a : Action Nat} {P : List String → Prop} {front rest : List String} {text : String}
    (hv : s.settings.Valid) (hfront : front.length = last + 1) (hs : s.surfaces.lookup id = some start)
    (hlines : start.lines = front ++ rest) (hrest : P rest)
    (hrun : ∀ t start' rest', t.settings = s.settings → t.surfaces.lookup id = some start' →
      start'.lines = front ++ rest' → P rest' → RunsRegion a id first last text t)
    (hP : ∀ rest' notes, P rest' → (∀ l ∈ notes, s.settings.isNote l = true) → P (behindRun s.settings notes rest'))
    (h : Reruns a id s t) : RunsRegion a id first last text t := by
  have hstay : t.settings = s.settings ∧
      ∃ start' rest', t.surfaces.lookup id = some start' ∧ start'.lines = front ++ rest' ∧ P rest' := by
    induction h with
    | refl => exact ⟨rfl, start, rest, hs, hlines, hrest⟩
    | @run t t' n h hok hset hsame ih =>
      obtain ⟨hsettings, start', rest', hs', hlines', hrest'⟩ := ih
      obtain ⟨start'', hs'', -, -, -, herror, houtcome⟩ := hrun t start' rest' hsettings hs' hlines' hrest'
      obtain rfl := Option.some.inj (hs'.symm.trans hs'')
      rcases hText : (evaluateText id text).runFrom (t.cleared id start' last) with ⟨e | o, t₁⟩
      · rw [herror e t₁ hText] at hok
        cases hok
      · obtain ⟨-, hkeep, hafter⟩ := houtcome o t₁ hText
        have hset₁ : t₁.settings = s.settings := (settings_of_cleared hText).trans hsettings
        have hnotes : ∀ l ∈ (Block.ofOutcome t₁.settings t₁.shownText o).lines, s.settings.isNote l = true :=
          fun l hl => hset₁ ▸ isNote_of_mem_lines (hset₁ ▸ hv) hl
        have htoNat : ((last : Int) + 1).toNat = front.length := by omega
        rw [hsettings, linesAfter, hlines', htoNat, List.take_left, List.drop_left] at hafter
        obtain ⟨next, hnext, hnextlines⟩ := Option.map_eq_some_iff.1 (hsame.trans hafter)
        exact ⟨hset.trans (hkeep.trans hsettings), next, _, hnext, hnextlines, hP rest' _ hrest' hnotes⟩
  obtain ⟨hsettings, start', rest', hs', hlines', hrest'⟩ := hstay
  exact hrun t start' rest' hsettings hs' hlines' hrest'

theorem textOf_append {front rest : List String} (hlines : start.lines = front ++ rest)
    (hfront : front.length = last + 1) : textOf start first last = Text.joinLines (front.drop first) := by
  have htoNat : ((last : Int) + 1).toNat = front.length := by omega
  rw [textOf, hlines, htoNat, List.take_left, Int.toNat_natCast]

/-- A further run of the whole surface evaluates the lines that the first one evaluated. -/
theorem runsOn_evaluateSurface (hv : s.settings.Valid) (hs : s.surfaces.lookup id = some start)
    (h : Reruns (evaluateSurface id) id s t) :
    RunsOn (evaluateSurface id) id start (surfaceRegion? s.settings start.lines) t := by
  rcases surfaceRegion?_cases (s := s.settings) start.lines with hnone | ⟨code, l, rest, hlines, hl, hrest, hregion⟩
  · rw [hnone]
    refine h.nothing hs fun t start' hset hs' hsame => ?_
    rw [runFrom_evaluateSurface hs', hset, hsame, hnone]
  · rw [hregion]
    have hfront : (code ++ [l]).length = code.length + 1 := by simp
    have hlines' : start.lines = (code ++ [l]) ++ rest := by simpa using hlines
    refine h.runsRegion (P := fun rest => ∀ l ∈ rest, s.settings.isIdle l = true) hv hfront hs hlines' hrest
      (fun t start' rest' hset hs' hsame hrest' => ?_) fun rest' notes hrest' hnotes => idle_behindRun hrest' hnotes
    rw [textOf_append hlines' hfront, ← textOf_append hsame hfront]
    have hlast : code.length < start'.lines.length := by
      rw [hsame, List.length_append, hfront]
      omega
    refine (runsRegion_runAndMove hs' (Nat.zero_le _) hlast).of_runFrom_eq ?_
    have hregion' : surfaceRegion? t.settings start'.lines = some (0, code.length) := by
      rw [hset, hsame, List.append_assoc]
      exact surfaceRegion?_append hl hrest'
    rw [runFrom_evaluateSurface hs', hregion']

/-- A further run of the paragraph around a line that the region reaches evaluates the lines that the first one
evaluated. -/
theorem runsOn_evaluateBlock (hv : s.settings.Valid) (hmarks : s.settings.Inked)
    (hs : s.surfaces.lookup id = some start) {line : Int}
    (hline : ∀ r, blockRegion? s.settings start.lines line = some r → line ≤ r.2)
    (h : Reruns (evaluateBlock id line) id s t) :
    RunsOn (evaluateBlock id line) id start (blockRegion? s.settings start.lines line) t := by
  rcases hregion : blockRegion? s.settings start.lines line with _ | ⟨first, last⟩
  · refine h.nothing hs fun t start' hset hs' hsame => ?_
    rw [runFrom_evaluateBlock hs', hset, hsame, hregion]
  · obtain ⟨before, code, l, rest, n, hlines, hbefore, hcode, hl, hrest, hn, rfl, rfl, rfl⟩ :=
      blockRegion?_eq_some hregion (hline _ hregion)
    have hfront : (before ++ (code ++ [l])).length = before.length + code.length + 1 := by
      simp only [List.length_append, List.length_singleton]
      omega
    have hlines' : start.lines = (before ++ (code ++ [l])) ++ rest := by rw [hlines, List.append_assoc before]
    refine h.runsRegion hv hfront hs hlines' hrest (fun t start' rest' hset hs' hsame hrest' => ?_)
      fun rest' notes hrest' hnotes => hrest'.behindRun hmarks hnotes
    rw [textOf_append hlines' hfront, ← textOf_append hsame hfront]
    have hlast : before.length + code.length < start'.lines.length := by
      rw [hsame, List.length_append, hfront]
      omega
    refine (runsRegion_runAndMove hs' (Nat.le_add_right _ _) hlast).of_runFrom_eq ?_
    have hregion' : blockRegion? t.settings start'.lines (before.length + n : Nat) =
        some (before.length, before.length + code.length) := by
      rw [hset, hsame, List.append_assoc before]
      exact blockRegion?_append hmarks hbefore hcode hl hrest' hn
    rw [runFrom_evaluateBlock hs', hregion']

/-- No region swallows the result of its own run: every further run of a command evaluates the lines of the first one,
as long as the marks cannot be taken for white space and the cursor is not behind the region. -/
theorem runsOn_reruns (hv : s.settings.Valid) (hmarks : s.settings.Inked) (hs : s.surfaces.lookup id = some start) :
    (∀ t, Reruns (evaluateSurface id) id s t →
      RunsOn (evaluateSurface id) id start (surfaceRegion? s.settings start.lines) t) ∧
    ∀ line : Int, (∀ r, blockRegion? s.settings start.lines line = some r → line ≤ r.2) →
      ∀ t, Reruns (evaluateBlock id line) id s t →
        RunsOn (evaluateBlock id line) id start (blockRegion? s.settings start.lines line) t :=
  ⟨fun _ h => runsOn_evaluateSurface hv hs h, fun _ hline _ h => runsOn_evaluateBlock hv hmarks hs hline h⟩

/-- The second run of the first line leaves out the block of the first run and the code behind it. -/
theorem runsRegion_rerun_block :
    let s := ofLines ["=", "-- => 7", "", "y"]
    let s₁ := ((evaluateBlock (.text "s") 0).runFrom s).2
    RunsRegion (evaluateBlock (.text "s") 0) (.text "s") 0 0 "=" s₁ ∧
      s₁.lines? (.text "s") = some ["=", "-- Error: luapad:1: unexpected symbol near '='", "", "y"] := by
  intro s s₁
  have hmarks : s.settings.Inked := by
    intro r
    cases r <;> decide
  have hregion : blockRegion? s.settings ["=", "-- => 7", "", "y"] 0 = some (0, 0) := by decide
  have hok : ((evaluateBlock (.text "s") 0).runFrom s).1.toOption.isSome = true := by decide +kernel
  rcases hrun : ((evaluateBlock (.text "s") 0).runFrom s).1 with e | n
  · rw [hrun] at hok
    cases hok
  · have hagain := (runsOn_reruns (s := s) Settings.valid_default hmarks rfl).2 0
      (fun r hr => by cases hregion.symm.trans hr; decide) s₁ (.run .refl hrun rfl rfl)
    rw [show blockRegion? s.settings (Surface.ofLines "s" ["=", "-- => 7", "", "y"]).lines 0 = some (0, 0) from hregion]
      at hagain
    exact ⟨hagain, by decide +kernel⟩

end Scratchpad.Session
