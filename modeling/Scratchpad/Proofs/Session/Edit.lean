import Scratchpad.Proofs.Session.Run

/-!
# The edit of a region

What the run of a region does to its surface, in closed form. Of the lines behind the region those stay that stand
behind the notes at their front, less one empty line if separators are on (`behindNotes`); before them goes the block,
and a separator unless a blank line comes first. Main statement: these are the lines after the run, the run counts the
lines of the block and its separator, and a range without lines changes no surface (`runFrom_evaluateRegion_edit`).
`Edit` lists the ways in which a run can change some lines, also one that ends in an error (`edit_evaluateRegion`).
-/

namespace Scratchpad

variable {s : Settings}

/-- The lines behind the notes at the front of some lines, without the first of them if it is empty and separators are
on. -/
def behindNotes (s : Settings) (behind : List String) : List String :=
  match behind.dropWhile s.isNote with
  | [] => []
  | l :: rest => if s.separate && l = "" then rest else l :: rest

/-- What the scan for an old block leaves is what is behind the notes. -/
theorem afterStale_eq_behindNotes (behind : List String) : afterStale s behind = behindNotes s behind := by
  have hempty : s.isNote "" = false := by simp [Settings.isNote]
  induction behind with
  | nil => rfl
  | cons l rest ih =>
    by_cases he : l = ""
    · subst he
      cases hsep : s.separate <;> simp [afterStale, staleLength, behindNotes, hempty, hsep]
    · cases hn : s.isNote l with
      | true =>
        have hstale : afterStale s (l :: rest) = afterStale s rest := by simp [afterStale, staleLength, he, hn]
        rw [hstale, ih, behindNotes, behindNotes, List.dropWhile_cons_of_pos hn]
      | false => simp [afterStale, staleLength, behindNotes, he, hn]

/-- An insertion counts the lines of the block and of the separator behind it. -/
theorem insertBlock_fst (surface : Surface) (pos : Nat) (b : Block) :
    (insertBlock s surface pos b).1 = (b.lines ++ separatorFor s (surface.lines.drop pos)).length := by
  rw [insertBlock, Surface.line?_natCast, separatorFor, List.head?_drop]

namespace Session

variable {s : Session} {id : SurfaceId} {start : Surface}

/-- The run of a region counts the lines of its block and of the separator behind it. -/
theorem withResult_fst {s₁ : Session} {first last : Int} (h0 : 0 ≤ last) (hlast : last < start.lineCount) (b : Block) :
    (s₁.withResult id start first last b).1 = .ok (b.lines.length +
      (separatorFor s₁.settings (afterStale s₁.settings (start.lines.drop (last + 1).toNat))).length) := by
  obtain ⟨k, hk⟩ : ∃ k : Nat, last + 1 = k := ⟨(last + 1).toNat, by omega⟩
  have hlen : k ≤ start.lines.length := by
    simp only [Surface.lineCount] at hlast
    omega
  have hlines := lines_removeStale (s := s₁.settings) hk (by omega) hlen
  have hbehind : (removeStale s₁.settings start last).2.lines.drop k =
      afterStale s₁.settings (start.lines.drop k) := by
    rw [hlines, List.drop_left' (List.length_take_of_le hlen)]
  simp only [withResult, hk, insertBlock_fst, hbehind, List.length_append, Int.toNat_natCast]

/-- The edit of a region, cut down to the lines that there are. A range without lines changes no surface. If the text of
the lines in the range has an outcome, its block comes behind them, then a separator if separators are on and no blank
line follows, and then the lines that were behind the notes there; the block and the separator are counted. -/
theorem runFrom_evaluateRegion_edit (hs : s.surfaces.lookup id = some start) (first last : Int) :
    let e := lastLine start last
    (first < 0 ∨ e < first →
      (evaluateRegion id first last).runFrom s = (.ok 0, { s with registry := s.registry.touch id })) ∧
    (0 ≤ first → first ≤ e → ∀ o s₁,
      (evaluateText id (textOf start first e)).runFrom (s.cleared id start e) = (.ok o, s₁) →
      let b := (Block.ofOutcome s.settings s₁.shownText o).lines
      let rest := behindNotes s.settings (start.lines.drop (e + 1).toNat)
      let separator := if s.settings.separate && !rest.head?.any Text.isBlank then [""] else []
      ∃ s', (evaluateRegion id first last).runFrom s = (.ok (b.length + separator.length), s') ∧
        s'.lines? id = some (start.lines.take (e + 1).toNat ++ b ++ separator ++ rest)) := by
  intro e
  have hlast : e < start.lineCount := by
    simp only [e, lastLine]
    omega
  refine ⟨runFrom_evaluateRegion_of_empty hs, fun h0 hle o s₁ hrun => ?_⟩
  have hset : s₁.settings = s.settings := settings_of_cleared hrun
  have hregion := runFrom_evaluateRegion hs h0 hle
  rw [show lastLine start last = e from rfl, hrun] at hregion
  refine ⟨_, hregion.trans (Prod.ext ?_ rfl), ?_⟩
  · rw [withResult_fst (by omega) hlast, afterStale_eq_behindNotes, hset]
    rfl
  · rw [lines?_withResult (by omega) hlast, linesAfter, behindRun, afterStale_eq_behindNotes, hset]
    simp only [List.append_assoc]
    rfl

/-- The two notes behind the first line go with the empty line behind them; a new separator stands before the code. A
range behind the last line changes nothing. -/
theorem runFrom_evaluateRegion_edit_notes :
    let s := ofLines ["=", "-- => 7", "--    8", "", "y"]
    (∃ s', (evaluateRegion (.text "s") 0 0).runFrom s = (.ok 2, s') ∧
      s'.lines? (.text "s") = some ["=", "-- Error: luapad:1: unexpected symbol near '='", "", "y"]) ∧
    (evaluateRegion (.text "s") 5 7).runFrom s = (.ok 0, { s with registry := s.registry.touch (.text "s") }) := by
  intro s
  have hs : s.surfaces.lookup (.text "s") = some (.ofLines "s" ["=", "-- => 7", "--    8", "", "y"]) := rfl
  refine ⟨?_, (runFrom_evaluateRegion_edit hs 5 7).1 (by decide)⟩
  have hrenders : Renders (.text "s") 0 0 s [⟨.error, "-- Error: luapad:1: unexpected symbol near '='"⟩] _ :=
    ⟨by decide +kernel, rfl⟩
  obtain ⟨h0, hle, o, s₁, hrun, hblock, -⟩ := hrenders.cases hs
  have hset : s₁.settings = s.settings := settings_of_cleared hrun
  obtain ⟨s', hok, hlines⟩ := (runFrom_evaluateRegion_edit hs 0 0).2 h0 hle o s₁ hrun
  rw [hset] at hblock
  rw [← hblock] at hok hlines
  exact ⟨s', hok.trans (Prod.ext (congrArg Except.ok (by decide +kernel)) rfl), hlines.trans (by decide +kernel)⟩

/-! ## The ways in which lines change -/

end Session

/-- What the run of a region does to some lines: nothing, or it takes the old block away, or it puts a new one there. -/
inductive Edit (s : Settings) (lines : List String) : List String → Prop
  | none : Edit s lines lines
  | cleared {k : Nat} (h0 : 0 < k) : Edit s lines (lines.take k ++ afterStale s (lines.drop k))
  | annotated {k : Nat} (h0 : 0 < k) (shown : Inspect.Value → String) (o : Outcome Inspect.Value) :
    Edit s lines (lines.take k ++ behindRun s (Block.ofOutcome s shown o).lines (lines.drop k))

namespace Session

variable {s : Session} {id : SurfaceId} {start : Surface}

theorem edit_none (lines? : Option (List String)) (settings : Settings) : lines?.Rel (Edit settings) lines? := by
  cases lines? with
  | none => exact .none
  | some lines => exact .some .none

/-- The lines in which the text of a region is evaluated. -/
theorem edit_cleared (hs : s.surfaces.lookup id = some start) {last : Int} (h0 : 0 ≤ last)
    (hlast : last < start.lineCount) (id' : SurfaceId) :
    (s.lines? id').Rel (Edit s.settings) ((s.cleared id start last).lines? id') := by
  by_cases h : id' = id
  · obtain ⟨k, hk⟩ : ∃ k : Nat, last + 1 = k := ⟨(last + 1).toNat, by omega⟩
    rw [Surface.lineCount] at hlast
    rw [h, lines?, lines?, hs, cleared, lookup_putSurface_self, Option.map_some, Option.map_some,
      lines_removeStale hk (by omega) (by omega)]
    exact .some (.cleared (by omega))
  · rw [lines?, lines?, cleared, lookup_putSurface_of_ne _ h]
    exact edit_none _ _

/-- The run of a region edits the lines behind it and no others, and keeps the settings. -/
theorem edit_evaluateRegion (s : Session) (id : SurfaceId) (first last : Int) :
    ((evaluateRegion id first last).runFrom s).2.settings = s.settings ∧
      ∀ id', (s.lines? id').Rel (Edit s.settings) (((evaluateRegion id first last).runFrom s).2.lines? id') := by
  cases hs : s.surfaces.lookup id with
  | none =>
    rw [runFrom_evaluateRegion_of_none hs]
    exact ⟨rfl, fun _ => edit_none _ _⟩
  | some start =>
    by_cases hr : first < 0 ∨ lastLine start last < first
    · rw [runFrom_evaluateRegion_of_empty hs hr]
      exact ⟨rfl, fun _ => edit_none _ _⟩
    · have hlast : lastLine start last < start.lineCount := by
        simp only [lastLine]
        omega
      have hsurfaces := (evaluateText_frame id (textOf start first (lastLine start last))
        (s.cleared id start (lastLine start last))).2
      have hcleared := edit_cleared hs (by omega) hlast
      rw [runFrom_evaluateRegion hs (by omega) (by omega)]
      rcases hrun : (evaluateText id (textOf start first (lastLine start last))).runFrom
        (s.cleared id start (lastLine start last)) with ⟨r, s₁⟩
      rw [hrun] at hsurfaces
      have hset : s₁.settings = s.settings := settings_of_cleared hrun
      have hlines : ∀ id', s₁.lines? id' = (s.cleared id start (lastLine start last)).lines? id' := fun id' =>
        congrArg (fun l => (List.lookup id' l).map Surface.lines) hsurfaces
      cases r with
      | error e => exact ⟨hset, fun id' => hlines id' ▸ hcleared id'⟩
      | ok o =>
        refine ⟨hset, fun id' => ?_⟩
        by_cases h : id' = id
        · rw [h, lines?_withResult (by omega) hlast, lines?, hs, Option.map_some, linesAfter, hset]
          exact .some (.annotated (by omega) _ _)
        · rw [lines?_withResult_of_ne h, hlines, lines?, lines?, cleared, lookup_putSurface_of_ne _ h]
          exact edit_none _ _

end Session

end Scratchpad
