import Scratchpad.Proofs.Session.Run
import Scratchpad.Proofs.Settings

/-!
# Runs of one region, one after the other

`RendersAll` is a row of runs of the same region, each with a block of its own. The surface they leave is the one that
the last of them alone would have left (`lines?_rendersAll_iff`), unless the lines behind the old block begin with a
blank line that was not put there as a separator but is taken for one (`Unsettled`). The three empty lines of
`lines?_rerun_before_empty_lines` show that case: the second run takes one of them away.
-/

namespace Scratchpad.Session

variable {id : SurfaceId} {first last : Int} {s s' : Session} {start : Surface}

/-- A run leaves the settings alone and puts its block behind the region. -/
theorem Renders.lines? {b : Block} (h : Renders id first last s b s') (hs : s.surfaces.lookup id = some start)
    (hlast : last < start.lineCount) :
    s'.settings = s.settings ∧ s'.lines? id = some (linesAfter s.settings last b.lines start.lines) ∧
      ∀ l ∈ b.lines, s.settings.Valid → s.settings.isNote l = true := by
  obtain ⟨h0, hr, o, s₁, hrun, hb, rfl⟩ := h.cases hs
  have hll : lastLine start last = last := by
    simp only [lastLine] at hr ⊢
    omega
  have hset : s₁.settings = s.settings := settings_of_cleared hrun
  refine ⟨hset, ?_, fun l hl hv => ?_⟩
  · rw [hll] at hr ⊢
    rw [lines?_withResult (by omega) hlast, hset]
  · rw [hb, hset] at hl
    exact isNote_of_mem_lines hv hl

/-- Runs of one region from `s` to `s'`, with the blocks that they put behind it. -/
inductive RendersAll (id : SurfaceId) (first last : Int) : Session → List Block → Session → Prop where
  | nil (s : Session) : RendersAll id first last s [] s
  | cons {s s₁ s' : Session} {b : Block} {bs : List Block} (head : Renders id first last s b s₁)
      (tail : RendersAll id first last s₁ bs s') : RendersAll id first last s (b :: bs) s'

/-- The lines after a row of runs. -/
theorem RendersAll.lines? {bs : List Block} (h : RendersAll id first last s bs s')
    (hs : s.surfaces.lookup id = some start) (h0 : 0 ≤ last) (hlast : last < start.lineCount) :
    s'.lines? id = some (start.lines.take (last + 1).toNat ++
      behindRuns s.settings (bs.map Block.lines) (start.lines.drop (last + 1).toNat)) ∧
      (s.settings.Valid → ∀ b ∈ bs.map Block.lines, ∀ l ∈ b, s.settings.isNote l = true) := by
  induction h generalizing start with
  | nil s => simp [Session.lines?, hs, behindRuns]
  | @cons s s₁ s' b bs head tail ih =>
    obtain ⟨hset, hlines, hnotes⟩ := head.lines? hs hlast
    obtain ⟨start₁, hs₁, hstart₁⟩ := Option.map_eq_some_iff.1 hlines
    have htake : (start.lines.take (last + 1).toNat).length = (last + 1).toNat := by
      rw [List.length_take]
      simp only [Surface.lineCount] at hlast
      omega
    have hlast₁ : last < start₁.lineCount := by
      rw [Surface.lineCount, hstart₁, linesAfter, List.length_append, htake]
      omega
    obtain ⟨ih₁, ih₂⟩ := ih hs₁ hlast₁
    refine ⟨?_, fun hv c hc => ?_⟩
    · rw [ih₁, hstart₁, linesAfter, hset, List.take_append_of_le_length (by omega),
        List.take_of_length_le (by omega), List.drop_append, List.drop_eq_nil_of_le (by omega), htake, Nat.sub_self,
        List.drop_zero, List.nil_append, List.map_cons, behindRuns]
    · rw [List.map_cons, List.mem_cons] at hc
      rcases hc with rfl | hc
      · exact fun l hl => hnotes l hl hv
      · rw [← hset] at hv ⊢
        exact ih₂ hv c hc

/-- A row of at least two runs leaves the lines that a single run with the last block leaves, exactly if the lines
behind the old block of the region are settled. -/
theorem lines?_rendersAll_iff {bs : List Block} {b : Block} {t t' : Session} (hv : s.settings.Valid)
    (hs : s.surfaces.lookup id = some start) (hlast : last < start.lineCount) (hne : bs ≠ [])
    (hrun : RendersAll id first last s (bs ++ [b]) s') (hset : t.settings = s.settings)
    (ht : t.lines? id = s.lines? id) (hone : Renders id first last t b t') :
    s'.lines? id = t'.lines? id ↔
      ¬ Unsettled s.settings (afterStale s.settings (start.lines.drop (last + 1).toNat)) := by
  have hstart : s.lines? id = some start.lines := by rw [Session.lines?, hs, Option.map_some]
  obtain ⟨startₜ, hₜ, hlinesₜ⟩ := Option.map_eq_some_iff.1 (ht.trans hstart)
  have hlastₜ : last < startₜ.lineCount := by rwa [Surface.lineCount, hlinesₜ]
  obtain ⟨h0, hr, -⟩ := hone.cases hₜ
  have h0' : 0 ≤ last := by
    simp only [lastLine] at hr
    omega
  obtain ⟨hrow, hnotes⟩ := hrun.lines? hs h0' hlast
  obtain ⟨-, hsingle, -⟩ := hone.lines? hₜ hlastₜ
  rw [hrow, hsingle, hlinesₜ, hset, linesAfter, Option.some.injEq, List.append_cancel_left_eq, List.map_append,
    List.map_cons, List.map_nil]
  rw [List.map_append] at hnotes
  exact behindRuns_eq_behindRun_iff (by simpa using hne)
    (fun c hc => hnotes hv c (List.mem_append_left _ hc)) b.lines _

/-- The block of the snippet `=`, which does not compile. -/
def lonelyEquals : Block :=
  [⟨.error, "-- Error: luapad:1: unexpected symbol near '='"⟩]

/-- Two runs before a line of code leave what one run leaves. -/
theorem lines?_rerun_before_code :
    let s := ofLines ["=", "-- => 7", "", "y"]
    let s₁ := ((evaluateRegion (.text "s") 0 0).runFrom s).2
    let s₂ := ((evaluateRegion (.text "s") 0 0).runFrom s₁).2
    RendersAll (.text "s") 0 0 s [lonelyEquals, lonelyEquals] s₂ ∧ s₂.lines? (.text "s") = s₁.lines? (.text "s") := by
  intro s s₁ s₂
  have h₁ : Renders (.text "s") 0 0 s lonelyEquals s₁ := ⟨by decide +kernel, rfl⟩
  have h₂ : Renders (.text "s") 0 0 s₁ lonelyEquals s₂ := ⟨by decide +kernel, rfl⟩
  have hrow : RendersAll (.text "s") 0 0 s ([lonelyEquals] ++ [lonelyEquals]) s₂ := .cons h₁ (.cons h₂ (.nil s₂))
  refine ⟨hrow, (lines?_rendersAll_iff Settings.valid_default rfl ?_ ?_ hrow rfl rfl h₁).2 ?_⟩
  · decide
  · decide
  · decide +kernel

/-- Two runs before three empty lines leave one line less than one run leaves. -/
theorem lines?_rerun_before_empty_lines :
    let s := ofLines ["=", "", "", "", "y"]
    let s₁ := ((evaluateRegion (.text "s") 0 0).runFrom s).2
    let s₂ := ((evaluateRegion (.text "s") 0 0).runFrom s₁).2
    RendersAll (.text "s") 0 0 s [lonelyEquals, lonelyEquals] s₂ ∧ s₂.lines? (.text "s") ≠ s₁.lines? (.text "s") := by
  intro s s₁ s₂
  have h₁ : Renders (.text "s") 0 0 s lonelyEquals s₁ := ⟨by decide +kernel, rfl⟩
  have h₂ : Renders (.text "s") 0 0 s₁ lonelyEquals s₂ := ⟨by decide +kernel, rfl⟩
  exact ⟨.cons h₁ (.cons h₂ (.nil s₂)), by decide +kernel⟩

end Scratchpad.Session
