import Scratchpad.Surface

/-!
# Edits of surfaces

What `insertLines` and `deleteLines` make of the lines of a surface, for positions in range: a list split at the
position, with the new lines between the parts or without the old ones (`lines_insertLines`, `lines_deleteLines`). On a
well-formed surface an insertion changes nothing else (`insertLines_eq`), and deleting what was inserted gives the
surface back (`deleteLines_insertLines`).
-/

namespace Scratchpad.Surface

variable {s : Surface}

theorem orEmptyLine_eq (lines : List String) : orEmptyLine lines = if lines = [] then [""] else lines := by
  simp [orEmptyLine]

theorem orEmptyLine_ne_nil (lines : List String) : orEmptyLine lines ≠ [] := by
  rw [orEmptyLine_eq]
  split
  · simp
  · assumption

theorem orEmptyLine_of_ne_nil {lines : List String} (h : lines ≠ []) : orEmptyLine lines = lines := by
  simp [orEmptyLine, h]

theorem clamp_le (s : Surface) (i : Int) : s.clamp i ≤ s.lines.length :=
  Nat.min_le_right _ _

/-- A position in range is not moved. -/
theorem clamp_natCast {n : Nat} (h : n ≤ s.lines.length) : s.clamp n = n := by
  have hn : ¬ (n : Int) < 0 := by omega
  simp only [clamp, hn, if_false, lineCount, Int.toNat_natCast]
  omega

@[simp]
theorem line?_natCast (n : Nat) : s.line? n = s.lines[n]? := by
  have hn : ¬ (n : Int) < 0 := by omega
  simp [line?, hn]

theorem lines_setLines {a b : Nat} (hab : a ≤ b) (hb : b ≤ s.lines.length) (r : List String) :
    (s.setLines a b r).lines = orEmptyLine (s.lines.take a ++ r ++ s.lines.drop b) := by
  simp only [setLines, clamp_natCast hb, clamp_natCast (Nat.le_trans hab hb), Nat.max_eq_right hab]

/-- Insertion splits the lines. -/
theorem lines_insertLines {k : Nat} (h0 : 0 < k) (hk : k ≤ s.lines.length) (r : List String) :
    (s.insertLines k r).lines = s.lines.take k ++ r ++ s.lines.drop k := by
  rw [insertLines, lines_setLines (Nat.le_refl k) hk, orEmptyLine_of_ne_nil]
  have hs : s.lines ≠ [] := List.length_pos_iff.1 (by omega)
  simp [hs]
  omega

/-- Deletion behind the first line joins what is before the range to what is behind it. -/
theorem lines_deleteLines {a b : Nat} (h0 : 0 < a) (hab : a ≤ b) (hb : b ≤ s.lines.length) :
    (s.deleteLines a b).lines = s.lines.take a ++ s.lines.drop b := by
  have hs : s.lines ≠ [] := List.length_pos_iff.1 (by omega)
  rw [deleteLines, lines_setLines hab hb, orEmptyLine_of_ne_nil] <;> simp [hs]
  omega

/-- A replacement changes nothing but the lines if the cursor is still on one of them. -/
theorem setLines_eq {a b : Nat} (hab : a ≤ b) (hb : b ≤ s.lines.length) {r : List String}
    (hcursor : s.cursor < (s.lines.take a ++ r ++ s.lines.drop b).length) :
    s.setLines a b r = { s with lines := s.lines.take a ++ r ++ s.lines.drop b } := by
  have hne : s.lines.take a ++ r ++ s.lines.drop b ≠ [] := List.length_pos_iff.1 (by omega)
  simp only [setLines, clamp_natCast hb, clamp_natCast (Nat.le_trans hab hb), Nat.max_eq_right hab,
    orEmptyLine_of_ne_nil hne]
  rw [Nat.min_eq_left (by omega)]

/-- Insertion leaves the cursor on the line with its number. -/
theorem insertLines_eq (hw : s.WellFormed) {k : Nat} (hk : k ≤ s.lines.length) (r : List String) :
    s.insertLines k r = { s with lines := s.lines.take k ++ r ++ s.lines.drop k } := by
  have hcursor := hw.2
  refine setLines_eq (Nat.le_refl k) hk ?_
  simp only [List.length_append, List.length_take, List.length_drop]
  omega

/-- Deleting the lines that were inserted gives the surface back. -/
theorem deleteLines_insertLines (hw : s.WellFormed) {k : Nat} (hk : k ≤ s.lines.length) (r : List String) :
    (s.insertLines k r).deleteLines k (k + r.length : Nat) = s := by
  have htake : (s.lines.take k ++ r ++ s.lines.drop k).take k = s.lines.take k := by
    rw [List.append_assoc, List.take_left' (List.length_take_of_le hk)]
  have hdrop : (s.lines.take k ++ r ++ s.lines.drop k).drop (k + r.length) = s.lines.drop k :=
    List.drop_left' (by rw [List.length_append, List.length_take_of_le hk])
  rw [insertLines_eq hw hk, deleteLines, setLines_eq (Nat.le_add_right k _)]
  · simp only [htake, hdrop, List.append_nil, List.take_append_drop]
  · simp only [List.length_append, List.length_take, List.length_drop]
    omega
  · simp only [htake, hdrop, List.append_nil, List.take_append_drop]
    exact hw.2

/-- The lines from one position to another. -/
theorem getLines_natCast {a b : Nat} (ha : a ≤ s.lines.length) (hb : b ≤ s.lines.length) :
    s.getLines a b = (s.lines.take b).drop a := by
  rw [getLines, clamp_natCast ha, clamp_natCast hb]

end Scratchpad.Surface
