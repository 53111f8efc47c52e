import Scratchpad.Proofs.Surface

/-!
# Surfaces under change

A surface is changed by calls (`Change`) that replace, insert or delete lines or move the cursor, with any integers as
indices.

- An index stands for a position between lines (`position`, `clamp_eq_position`).
- Replacing lines puts new ones between what is before the first position and what is behind the second one, and moves
  the cursor only if its line is gone (`Replaces`, `replaces_setLines`).
- One call keeps a surface well formed (`WellFormed.apply`), and so does a run of calls (`WellFormed.edited`).

Main statement: after any run of calls a surface has a line and its cursor is on one, and any further call does exactly
what it says (`edited_exact`). The surfaces of such runs are all well-formed ones (`wellFormed_iff_edited`).
-/

namespace Scratchpad.Surface

/-! ## Positions -/

/-- The position among `count` lines that an index stands for: a negative index counts from past the last line, and
what is out of range then is moved to the nearest end. -/
def position (count : Nat) (i : Int) : Int :=
  max 0 (min (if i < 0 then i + (count + 1) else i) count)

theorem clamp_eq_position (s : Surface) (i : Int) : (s.clamp i : Int) = position s.lineCount i := by
  simp only [clamp, position]
  split <;> omega

/-! ## Replacing lines -/

/-- The surface `s'` is `s` with the lines `r` in place of those from the index `start` to the index `stop`. A range
that ends before it starts is empty, and where no line would be left there is an empty one. -/
structure Replaces (s : Surface) (start stop : Int) (r : List String) (s' : Surface) : Prop where
  name : s'.name = s.name
  lines : ∃ before between behind : List String, s.lines = before ++ between ++ behind ∧
    before.length = position s.lineCount start ∧
    (before ++ between).length = max (position s.lineCount start) (position s.lineCount stop) ∧
    s'.lines = if before ++ r ++ behind = [] then [""] else before ++ r ++ behind
  shown : r ≠ [] → s'.getLines (position s.lineCount start) (position s.lineCount start + r.length) = r
  cursor : s'.cursor = if s.cursor < s'.lineCount then s.cursor else s'.lineCount - 1

/-- The lines before one position and those from there to another. -/
theorem take_append_between (lines : List String) {a b : Nat} (hab : a ≤ b) :
    lines.take a ++ (lines.take b).drop a = lines.take b := by
  have htake : (lines.take b).take a = lines.take a := by rw [List.take_take, Nat.min_eq_left hab]
  rw [← htake, List.take_append_drop]

/-- The lines that were put at a position are found there. -/
theorem getLines_of_lines_eq {s : Surface} {before r behind : List String} (h : s.lines = before ++ r ++ behind) :
    s.getLines before.length (before.length + r.length : Nat) = r := by
  have hlength : s.lines.length = before.length + r.length + behind.length := by
    rw [h, List.length_append, List.length_append]
  rw [getLines_natCast (by omega) (by omega), h, List.take_left' (by simp), List.drop_left]

theorem replaces_setLines (s : Surface) (start stop : Int) (r : List String) :
    Replaces s start stop r (s.setLines start stop r) := by
  have hfirst := s.clamp_le start
  have hpast : max (s.clamp start) (s.clamp stop) ≤ s.lines.length := Nat.max_le.2 ⟨hfirst, s.clamp_le stop⟩
  have hbetween := take_append_between s.lines (Nat.le_max_left (s.clamp start) (s.clamp stop))
  have hlines : (s.setLines start stop r).lines = orEmptyLine (s.lines.take (s.clamp start) ++ r ++
      s.lines.drop (max (s.clamp start) (s.clamp stop))) := rfl
  constructor
  case name => rfl
  case lines =>
    refine ⟨s.lines.take (s.clamp start), (s.lines.take (max (s.clamp start) (s.clamp stop))).drop (s.clamp start), _,
      ?_, ?_, ?_, hlines.trans (orEmptyLine_eq _)⟩
    · rw [hbetween, List.take_append_drop]
    · rw [List.length_take_of_le hfirst, clamp_eq_position]
    · rw [hbetween, List.length_take_of_le hpast, ← clamp_eq_position, ← clamp_eq_position]
      omega
  case shown =>
    intro hr
    -- With new lines the surface is not empty, so no empty line was put in their place.
    rw [orEmptyLine_of_ne_nil (by simp [hr])] at hlines
    have hget := getLines_of_lines_eq hlines
    rwa [List.length_take_of_le hfirst, Int.natCast_add, clamp_eq_position] at hget
  case cursor =>
    have hcursor : (s.setLines start stop r).cursor = min s.cursor ((s.setLines start stop r).lineCount - 1) := rfl
    split <;> omega

/-! ## Calls -/

/-- A call that changes a surface. -/
inductive Change where
  | setLines (start stop : Int) (r : List String)
  | insertLines (pos : Int) (r : List String)
  | deleteLines (start stop : Int)
  | setCursor (line : Int)
  deriving DecidableEq, Repr

/-- The surface after a call. -/
def Change.apply (s : Surface) : Change → Surface
  | .setLines start stop r => s.setLines start stop r
  | .insertLines pos r => s.insertLines pos r
  | .deleteLines start stop => s.deleteLines start stop
  | .setCursor line => s.setCursor line

/-- The surface after calls, the first one first. -/
def edited (s : Surface) (changes : List Change) : Surface :=
  changes.foldl Change.apply s

/-- What a call is to make of a surface. -/
def Change.Makes (s : Surface) : Change → Surface → Prop
  | .setLines start stop r, s' => Replaces s start stop r s'
  | .insertLines pos r, s' => Replaces s pos pos r s'
  | .deleteLines start stop, s' => Replaces s start stop [] s'
  | .setCursor line, s' =>
    s'.name = s.name ∧ s'.lines = s.lines ∧ (s'.cursor : Int) = max 0 (min line (s.lineCount - 1))

theorem makes_apply (s : Surface) (c : Change) : c.Makes s (c.apply s) := by
  cases c with
  | setLines start stop r => exact replaces_setLines s start stop r
  | insertLines pos r => exact replaces_setLines s pos pos r
  | deleteLines start stop => exact replaces_setLines s start stop []
  | setCursor line =>
    refine ⟨rfl, rfl, ?_⟩
    simp only [Change.apply, setCursor]
    omega

/-! ## Runs of calls -/

variable {s : Surface}

theorem wellFormed_ofLines (name : String) (lines : List String) : (ofLines name lines).WellFormed :=
  ⟨orEmptyLine_ne_nil lines, List.length_pos_iff.2 (orEmptyLine_ne_nil lines)⟩

/-- After a replacement there is a line and the cursor is on one, whatever was there before. -/
theorem wellFormed_setLines (s : Surface) (start stop : Int) (r : List String) :
    (s.setLines start stop r).WellFormed := by
  have hne : (s.setLines start stop r).lines ≠ [] := orEmptyLine_ne_nil _
  have hpos := List.length_pos_iff.2 hne
  have hcursor := (replaces_setLines s start stop r).cursor
  rw [lineCount] at hcursor
  exact ⟨hne, by split at hcursor <;> omega⟩

theorem WellFormed.setCursor (h : s.WellFormed) (line : Int) : (s.setCursor line).WellFormed := by
  have hpos := List.length_pos_iff.2 h.1
  refine ⟨h.1, ?_⟩
  simp only [Surface.setCursor, lineCount]
  omega

theorem WellFormed.apply (h : s.WellFormed) (c : Change) : (c.apply s).WellFormed := by
  cases c with
  | setLines start stop r => exact wellFormed_setLines s start stop r
  | insertLines pos r => exact wellFormed_setLines s pos pos r
  | deleteLines start stop => exact wellFormed_setLines s start stop []
  | setCursor line => exact h.setCursor line

theorem WellFormed.edited (h : s.WellFormed) (changes : List Change) : (s.edited changes).WellFormed := by
  induction changes generalizing s with
  | nil => exact h
  | cons c changes ih => exact ih (h.apply c)

/-- The well-formed surfaces are those that calls can make. -/
theorem wellFormed_iff_edited : s.WellFormed ↔ ∃ lines changes, s = (ofLines s.name lines).edited changes := by
  constructor
  · intro h
    refine ⟨s.lines, [.setCursor s.cursor], ?_⟩
    have hlines : orEmptyLine s.lines = s.lines := orEmptyLine_of_ne_nil h.1
    have hcursor : min s.cursor (s.lines.length - 1) = s.cursor := by
      have hlt := h.2
      omega
    simp [Surface.edited, Change.apply, Surface.setCursor, ofLines, lineCount, hlines, hcursor]
  · rintro ⟨lines, changes, hs⟩
    rw [hs]
    exact (wellFormed_ofLines s.name lines).edited changes

/-- After any run of calls a surface is well formed, and every further call makes of it what it is to make. -/
theorem edited_exact (name : String) (lines : List String) (changes : List Change) :
    let s := (ofLines name lines).edited changes
    s.WellFormed ∧ ∀ c : Change, c.Makes s (c.apply s) := by
  intro s
  exact ⟨(wellFormed_ofLines name lines).edited changes, makes_apply s⟩

/-- The index -1 stands past the last line, and a range that ends before it starts is an insertion. -/
example : (ofLines "s" ["a", "b"]).edited [.setCursor 9, .insertLines (-1) ["c"], .setLines 2 0 ["x"]] =
    ⟨"s", ["a", "b", "x", "c"], 1⟩ := by
  decide

end Scratchpad.Surface
