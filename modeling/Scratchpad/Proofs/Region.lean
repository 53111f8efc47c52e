import Scratchpad.Proofs.Surface
import Scratchpad.Region

/-!
# The lines behind a region

A run of a region changes nothing but the lines behind it (`lines_removeStale`, `lines_insertBlock`): the block of the
last run goes (`afterStale`), and the new block comes with its separator (`behindRun`). Main statements:

- the lines of a block are notes (`isNote_of_mem_lines`), so the next run takes the whole block away
  (`afterStale_notes_append`);
- several runs leave what the last one alone would have left, exactly if the lines behind the old block do not begin
  with a blank line that the next run takes for a part of the new one (`behindRuns_eq_behindRun_iff`, `BlankAhead`). If
  they do, further runs make them less (`weight_trail_lt`).
-/

namespace Scratchpad

variable {s : Settings}

/-! ## Blocks consist of notes -/

theorem isPrefixOf_append (p q : List Char) : p.isPrefixOf (p ++ q) = true :=
  List.isPrefixOf_iff_prefix.2 (List.prefix_append p q)

/-- Whatever is put behind a mark is a note. -/
theorem isNote_mark_append (hs : s.Valid) (r : Role) (text : String) : s.isNote (s.mark r ++ text) = true := by
  have hm : s.mark r ≠ "" := hs.1 r
  have hne : s.mark r ++ text ≠ "" := fun e => hm (String.append_eq_empty_iff.1 e).1
  have hr : r ∈ Role.all := by cases r <;> decide
  simp only [Settings.isNote, decide_eq_true hne, Bool.true_and, List.any_eq_true]
  refine ⟨r, hr, ?_⟩
  simp [hm, Settings.startsWith, isPrefixOf_append]

/-- The texts that show values, with their roles. -/
def Block.valueParts {α : Type} (shown : α → String) : List α → List (Role × String)
  | [] => []
  | v :: vs => (.result, shown v) :: vs.map fun v => (.continuation, shown v)

/-- The texts that show an outcome, with their roles. -/
def Block.parts {α : Type} (s : Settings) (shown : α → String) : Outcome α → List (Role × String)
  | .success values output =>
    output.map (fun t => (.output, t)) ++
      if values.isEmpty && output.isEmpty && s.showNil then [(.result, "nil")]
      else valueParts shown values
  | .failure _ message => [(.error, message)]

/-- A block shows its texts one after the other. -/
theorem ofOutcome_eq {α : Type} (shown : α → String) (o : Outcome α) : Block.ofOutcome s shown o =
    (Block.parts s shown o).flatMap fun p => Block.ofText s p.1 p.2 := by
  cases o with
  | failure stage message => exact (List.flatMap_singleton _ _).symm
  | success values output =>
    rw [Block.ofOutcome, Block.parts, List.flatMap_append, List.flatMap_map]
    refine congrArg (output.flatMap (Block.ofText s .output) ++ ·) ?_
    split
    · exact (List.flatMap_singleton _ _).symm
    · cases values with
      | nil => rfl
      | cons v vs => rw [List.map_cons, Block.ofValues, Block.valueParts, List.flatMap_cons, List.flatMap_map,
          List.flatMap_map]

/-- A block has a line for each line of its texts. -/
theorem lines_ofOutcome {α : Type} (shown : α → String) (o : Outcome α) : (Block.ofOutcome s shown o).lines =
    (Block.parts s shown o).flatMap fun p => (Text.splitLines p.2).map fun l => s.mark p.1 ++ l := by
  rw [ofOutcome_eq, Block.lines, List.map_flatMap]
  refine congrArg (fun f => (Block.parts s shown o).flatMap f) (funext fun p => ?_)
  rw [Block.ofText, List.map_map]
  rfl

/-- Every line that shows an outcome is a mark and a line of some text. -/
theorem exists_mark_of_mem_lines {α : Type} {shown : α → String} {o : Outcome α} {l : String}
    (h : l ∈ (Block.ofOutcome s shown o).lines) : ∃ r text, ∃ piece ∈ Text.splitLines text, l = s.mark r ++ piece := by
  rw [lines_ofOutcome, List.mem_flatMap] at h
  obtain ⟨p, -, hl⟩ := h
  obtain ⟨piece, hpiece, rfl⟩ := List.mem_map.1 hl
  exact ⟨p.1, p.2, piece, hpiece, rfl⟩

/-- Every line that shows an outcome is a note. -/
theorem isNote_of_mem_lines {α : Type} (hs : s.Valid) {shown : α → String} {o : Outcome α} {l : String}
    (h : l ∈ (Block.ofOutcome s shown o).lines) : s.isNote l = true := by
  obtain ⟨r, -, piece, -, rfl⟩ := exists_mark_of_mem_lines h
  exact isNote_mark_append hs r piece

theorem ne_empty_of_isNote {l : String} (h : s.isNote l = true) : l ≠ "" := by
  rintro rfl
  simp [Settings.isNote] at h

/-! ## What goes and what comes -/

/-- The lines behind a region without the block of its last run. -/
def afterStale (s : Settings) (behind : List String) : List String :=
  behind.drop (staleLength s behind)

/-- The separator between a block and the lines behind it. -/
def separatorFor (s : Settings) (behind : List String) : List String :=
  if s.separate && !behind.head?.any Text.isBlank then [""] else []

/-- The lines behind a region after a run with the block `notes`. -/
def behindRun (s : Settings) (notes behind : List String) : List String :=
  notes ++ separatorFor s (afterStale s behind) ++ afterStale s behind

theorem staleLength_le_length (behind : List String) : staleLength s behind ≤ behind.length := by
  induction behind with
  | nil => simp [staleLength]
  | cons l rest ih =>
    simp only [staleLength, List.length_cons]
    split
    · split <;> omega
    · split <;> omega

theorem lines_removeStale {surface : Surface} {last : Int} {k : Nat} (hlast : last + 1 = k) (h0 : 0 < k)
    (hk : k ≤ surface.lines.length) :
    (removeStale s surface last).2.lines = surface.lines.take k ++ afterStale s (surface.lines.drop k) := by
  have hneg : ¬ last < -1 := by omega
  have hle := staleLength_le_length (s := s) (surface.lines.drop k)
  rw [List.length_drop] at hle
  simp only [removeStale, hneg, if_false, hlast, Int.toNat_natCast, afterStale, List.drop_drop]
  split
  · rename_i hn
    rw [hn, Nat.add_zero, List.take_append_drop]
  · rw [← Int.natCast_add, Surface.lines_deleteLines h0 (Nat.le_add_right k _) (by omega)]

theorem lines_insertBlock {surface : Surface} {k : Nat} (h0 : 0 < k) (hk : k ≤ surface.lines.length) (b : Block) :
    (insertBlock s surface k b).2.2.lines =
      surface.lines.take k ++ (b.lines ++ separatorFor s (surface.lines.drop k)) ++ surface.lines.drop k := by
  rw [insertBlock, Surface.lines_insertLines h0 hk, Surface.line?_natCast, separatorFor, List.head?_drop]

/-! ## A further run -/

theorem staleLength_notes_append {notes : List String} (h : ∀ l ∈ notes, s.isNote l = true) (r : List String) :
    staleLength s (notes ++ r) = notes.length + staleLength s r := by
  induction notes with
  | nil => simp
  | cons l ls ih =>
    have hl := h l List.mem_cons_self
    rw [List.cons_append, staleLength, if_neg (ne_empty_of_isNote hl), if_pos hl,
      ih fun x hx => h x (List.mem_cons_of_mem l hx), List.length_cons]
    omega

/-- The block of the last run goes as a whole. -/
theorem afterStale_notes_append {notes : List String} (h : ∀ l ∈ notes, s.isNote l = true) (r : List String) :
    afterStale s (notes ++ r) = afterStale s r := by
  rw [afterStale, staleLength_notes_append h, List.drop_append, List.drop_eq_nil_of_le (by omega),
    Nat.add_sub_cancel_left, List.nil_append, afterStale]

/-- Without separators only notes go, and no note is left at the front. -/
theorem afterStale_afterStale (hsep : s.separate = false) (behind : List String) :
    afterStale s (afterStale s behind) = afterStale s behind := by
  induction behind with
  | nil => rfl
  | cons l rest ih =>
    by_cases he : l = ""
    · simp [afterStale, staleLength, he, hsep]
    · by_cases hn : s.isNote l
      · simpa [afterStale, staleLength, he, hn] using ih
      · simp [afterStale, staleLength, he, hn]

/-- The lines behind the block of a run: the separator and what was there. -/
def trail (s : Settings) (r : List String) : List String :=
  separatorFor s r ++ r

theorem behindRun_eq (notes behind : List String) :
    behindRun s notes behind = notes ++ trail s (afterStale s behind) := by
  rw [behindRun, trail, List.append_assoc]

/-- The lines begin with a blank line that counts as a part of a block before them: a note of white space, or an empty
line that is followed by a further blank line. -/
def BlankAhead (s : Settings) : List String → Prop
  | [] => False
  | l :: rest => Text.isBlank l = true ∧ (s.isNote l = true ∨ l = "" ∧ rest.head?.any Text.isBlank = true)

/-- A further run changes the lines behind its block. -/
def Unsettled (s : Settings) (r : List String) : Prop :=
  s.separate = true ∧ BlankAhead s r

instance : DecidablePred (BlankAhead s)
  | [] => inferInstanceAs (Decidable False)
  | l :: rest => inferInstanceAs (Decidable (Text.isBlank l = true ∧
      (s.isNote l = true ∨ l = "" ∧ rest.head?.any Text.isBlank = true)))

instance (r : List String) : Decidable (Unsettled s r) :=
  inferInstanceAs (Decidable (s.separate = true ∧ BlankAhead s r))

theorem trail_of_blank {r : List String} (h : r.head?.any Text.isBlank = true) : trail s r = r := by
  simp [trail, separatorFor, h]

theorem trail_of_ink (hsep : s.separate = true) {r : List String} (h : r.head?.any Text.isBlank = false) :
    trail s r = "" :: r := by
  simp [trail, separatorFor, h, hsep]

theorem trail_of_not_separate (hsep : s.separate = false) (r : List String) : trail s r = r := by
  simp [trail, separatorFor, hsep]

theorem afterStale_empty_cons (hsep : s.separate = true) (r : List String) : afterStale s ("" :: r) = r := by
  simp [afterStale, staleLength, hsep]

/-- A run on settled lines leaves them as they are. -/
theorem trail_afterStale_trail {behind : List String} (h : ¬ Unsettled s (afterStale s behind)) :
    trail s (afterStale s (trail s (afterStale s behind))) = trail s (afterStale s behind) := by
  cases hsep : s.separate with
  | false => simp only [trail_of_not_separate hsep, afterStale_afterStale hsep]
  | true =>
    generalize afterStale s behind = r at h ⊢
    cases hb : r.head?.any Text.isBlank with
    | false => rw [trail_of_ink hsep hb, afterStale_empty_cons hsep, trail_of_ink hsep hb]
    | true =>
      rw [trail_of_blank hb]
      cases r with
      | nil => simp at hb
      | cons l rest =>
        have hl : Text.isBlank l = true := by simpa using hb
        have hn : ¬ s.isNote l = true := fun e => h ⟨hsep, hl, Or.inl e⟩
        by_cases he : l = ""
        · subst he
          have hrest : rest.head?.any Text.isBlank = false := by
            rw [Bool.eq_false_iff]
            exact fun e => h ⟨hsep, hl, Or.inr ⟨rfl, e⟩⟩
          rw [afterStale_empty_cons hsep, trail_of_ink hsep hrest]
        · have h0 : afterStale s (l :: rest) = l :: rest := by simp [afterStale, staleLength, he, hn]
          rw [h0, trail_of_blank hb]

/-- What a further run can only make smaller: the number of lines, and that of notes among them. -/
def weight (s : Settings) (lines : List String) : Nat :=
  lines.length + lines.countP s.isNote

theorem weight_append (a b : List String) : weight s (a ++ b) = weight s a + weight s b := by
  simp only [weight, List.length_append, List.countP_append]
  omega

theorem weight_trail_le (r : List String) : weight s (trail s r) ≤ weight s r + 1 := by
  have hnote : s.isNote "" = false := by simp [Settings.isNote]
  rw [trail, weight_append, separatorFor]
  split
  · simp [weight, hnote]
    omega
  · simp [weight]

theorem weight_afterStale_le (behind : List String) : weight s (afterStale s behind) ≤ weight s behind := by
  conv => rhs; rw [← List.take_append_drop (staleLength s behind) behind, weight_append]
  exact Nat.le_add_left _ _

/-- A run on unsettled lines makes them less. -/
theorem weight_trail_lt {r : List String} (h : Unsettled s r) :
    weight s (trail s (afterStale s (trail s r))) < weight s (trail s r) := by
  obtain ⟨hsep, hr⟩ := h
  cases r with
  | nil => exact absurd hr id
  | cons l rest =>
    obtain ⟨hl, hr⟩ := hr
    have hb : (l :: rest).head?.any Text.isBlank = true := by simpa using hl
    rw [trail_of_blank hb]
    rcases hr with hn | ⟨rfl, hrest⟩
    · have h0 : afterStale s (l :: rest) = afterStale s rest := by
        simp [afterStale, staleLength, ne_empty_of_isNote hn, hn]
      have h1 := weight_trail_le (s := s) (afterStale s rest)
      have h2 := weight_afterStale_le (s := s) rest
      have h3 : weight s (l :: rest) = weight s rest + 2 := by
        simp only [weight, List.length_cons, List.countP_cons, hn, if_true]
        omega
      rw [h0, h3]
      omega
    · rw [afterStale_empty_cons hsep, trail_of_blank hrest]
      simp only [weight, List.length_cons, List.countP_cons]
      omega

/-! ## Any number of runs -/

/-- The lines behind a region after runs with the given blocks, the first one first. -/
def behindRuns (s : Settings) : List (List String) → List String → List String
  | [], behind => behind
  | notes :: more, behind => behindRuns s more (behindRun s notes behind)

theorem behindRuns_append (before after : List (List String)) (behind : List String) :
    behindRuns s (before ++ after) behind = behindRuns s after (behindRuns s before behind) := by
  induction before generalizing behind with
  | nil => rfl
  | cons notes more ih => exact ih _

/-- The lines that the next run finds behind the block of a run. -/
theorem afterStale_behindRun {notes : List String} (h : ∀ l ∈ notes, s.isNote l = true) (behind : List String) :
    afterStale s (behindRun s notes behind) = afterStale s (trail s (afterStale s behind)) := by
  rw [behindRun_eq, afterStale_notes_append h]

/-- Settled lines stay settled. -/
theorem not_unsettled_next {behind : List String} (h : ¬ Unsettled s (afterStale s behind)) :
    ¬ Unsettled s (afterStale s (trail s (afterStale s behind))) := by
  intro hu
  have hlt := weight_trail_lt hu
  rw [trail_afterStale_trail h, trail_afterStale_trail h] at hlt
  exact absurd hlt (Nat.lt_irrefl _)

theorem trail_behindRuns {blocks : List (List String)} (hn : ∀ b ∈ blocks, ∀ l ∈ b, s.isNote l = true)
    {behind : List String} (h : ¬ Unsettled s (afterStale s behind)) :
    trail s (afterStale s (behindRuns s blocks behind)) = trail s (afterStale s behind) := by
  induction blocks generalizing behind with
  | nil => rfl
  | cons notes more ih =>
    have hnext := afterStale_behindRun (hn notes List.mem_cons_self) behind
    rw [behindRuns, ih (fun b hb => hn b (List.mem_cons_of_mem _ hb)) (hnext ▸ not_unsettled_next h), hnext,
      trail_afterStale_trail h]

theorem weight_behindRuns_lt {blocks : List (List String)} (hne : blocks ≠ [])
    (hn : ∀ b ∈ blocks, ∀ l ∈ b, s.isNote l = true) {behind : List String} (h : Unsettled s (afterStale s behind)) :
    weight s (trail s (afterStale s (behindRuns s blocks behind))) < weight s (trail s (afterStale s behind)) := by
  induction blocks generalizing behind with
  | nil => exact absurd rfl hne
  | cons notes more ih =>
    have hnext := afterStale_behindRun (hn notes List.mem_cons_self) behind
    have hmore : ∀ b ∈ more, ∀ l ∈ b, s.isNote l = true := fun b hb => hn b (List.mem_cons_of_mem _ hb)
    have hlt := weight_trail_lt h
    rw [← hnext] at hlt
    rw [behindRuns]
    by_cases hu : Unsettled s (afterStale s (behindRun s notes behind))
    · by_cases hm : more = []
      · simpa [hm, behindRuns] using hlt
      · exact Nat.lt_trans (ih hm hmore hu) hlt
    · rw [trail_behindRuns hmore hu]
      exact hlt

/-- After several runs the lines are those of the last run alone, exactly if the lines behind the old block were
settled. -/
theorem behindRuns_eq_behindRun_iff {blocks : List (List String)} (hne : blocks ≠ [])
    (hn : ∀ b ∈ blocks, ∀ l ∈ b, s.isNote l = true) (notes behind : List String) :
    behindRuns s (blocks ++ [notes]) behind = behindRun s notes behind ↔ ¬ Unsettled s (afterStale s behind) := by
  simp only [behindRuns_append, behindRuns, behindRun_eq, List.append_cancel_left_eq]
  constructor
  · intro he hu
    have hlt := weight_behindRuns_lt hne hn hu
    rw [he] at hlt
    exact absurd hlt (Nat.lt_irrefl _)
  · exact trail_behindRuns hn

end Scratchpad
