import Scratchpad.Proofs.Region
import Scratchpad.Proofs.Settings

/-!
# Removal undoes insertion

Directly after a block was inserted, removal takes away the lines of the block and its separator
(`staleLength_payload`), and further lines just if there is no separator and the lines behind the block begin with what
counts as a part of it. Main statements: removal right after insertion gives the surface back, exactly if no such line
follows (`removeStale_insertBlock_iff`); in particular it does behind a separator, and if separators are off and no note
follows (`removeStale_insertBlock`).
-/

namespace Scratchpad

variable {s : Settings}

/-- Nothing goes exactly if the first line is no note, and no empty line that counts as a separator. -/
theorem staleLength_eq_zero_iff (behind : List String) :
    staleLength s behind = 0 ↔ ∀ l, behind.head? = some l → s.isNote l = false ∧ (s.separate = true → l ≠ "") := by
  have hempty : s.isNote "" = false := by simp [Settings.isNote]
  cases behind with
  | nil => simp [staleLength]
  | cons l rest =>
    simp only [staleLength, List.head?_cons, Option.some.injEq, forall_eq']
    by_cases he : l = ""
    · subst he
      cases s.separate <;> simp [hempty]
    · cases hn : s.isNote l <;> simp [he]

/-- The lines that come with a block: its own, and the separator if there is one. -/
def Block.payload (b : Block) (separator : Bool) : List String :=
  b.lines ++ if separator then [""] else []

theorem insertBlock_eq (surface : Surface) (pos : Int) (b : Block) : ∃ separator, insertBlock s surface pos b =
    ((b.payload separator).length, separator, surface.insertLines pos (b.payload separator)) ∧
      (separator = true → s.separate = true) :=
  ⟨_, rfl, fun h => (Bool.and_eq_true_iff.1 h).1⟩

/-- The block with its separator counts as a whole, and the separator is its end. -/
theorem staleLength_payload {b : Block} (hb : ∀ l ∈ b.lines, s.isNote l = true) {separator : Bool}
    (hsep : separator = true → s.separate = true) (r : List String) : staleLength s (b.payload separator ++ r) =
      (b.payload separator).length + if separator then 0 else staleLength s r := by
  rw [Block.payload, List.append_assoc, staleLength_notes_append hb, List.length_append, Nat.add_assoc]
  cases separator with
  | false => simp
  | true => simp [staleLength, hsep rfl]

section Undo

variable {surface : Surface} {pos : Nat}

/-- What is removed right after lines were inserted: as many lines from there on as count as a block. -/
theorem removeStale_insertLines (hw : surface.WellFormed) (hpos : pos ≤ surface.lines.length) (r : List String) :
    removeStale s (surface.insertLines pos r) (pos - 1) =
      if staleLength s (r ++ surface.lines.drop pos) = 0 then (0, surface.insertLines pos r)
      else (staleLength s (r ++ surface.lines.drop pos),
        (surface.insertLines pos r).deleteLines pos (pos + staleLength s (r ++ surface.lines.drop pos) : Nat)) := by
  have hdrop : (surface.insertLines pos r).lines.drop pos = r ++ surface.lines.drop pos := by
    rw [Surface.insertLines_eq hw hpos, List.append_assoc, List.drop_left' (List.length_take_of_le hpos)]
  have hrange : ¬ (pos : Int) - 1 < -1 := by omega
  simp only [removeStale, hrange, if_false, Int.sub_add_cancel, Int.toNat_natCast, hdrop, Int.natCast_add]

/-- The inserted lines are removed, and nothing else is, exactly if just they count as a block. -/
theorem removeStale_insertLines_iff (hw : surface.WellFormed) (hpos : pos ≤ surface.lines.length) (r : List String) :
    removeStale s (surface.insertLines pos r) (pos - 1) = (r.length, surface) ↔
      staleLength s (r ++ surface.lines.drop pos) = r.length := by
  rw [removeStale_insertLines hw hpos]
  constructor
  · intro h
    have hfst := congrArg Prod.fst h
    split at hfst
    · rename_i h0
      exact h0.trans hfst
    · exact hfst
  · intro h
    rw [h, Surface.deleteLines_insertLines hw hpos]
    split
    · rename_i h0
      rw [h0, List.length_eq_zero_iff.1 h0, Surface.insertLines_eq hw hpos, List.append_nil, List.take_append_drop]
    · rfl

variable {α : Type}

/-- Removal right after the insertion of a block counts the lines that were inserted and gives the surface back, exactly
if there is a separator behind the block or else no line that counts as a part of it. -/
theorem removeStale_insertBlock_iff (hs : s.Valid) (hw : surface.WellFormed) (hpos : pos ≤ surface.lineCount)
    (shown : α → String) (o : Outcome α) :
    let r := insertBlock s surface pos (Block.ofOutcome s shown o)
    removeStale s r.2.2 (pos - 1) = (r.1, surface) ↔
      (r.2.1 = true ∨ ∀ l, surface.line? pos = some l → s.isNote l = false ∧ (s.separate = true → l ≠ "")) := by
  obtain ⟨separator, hr, hsep⟩ := insertBlock_eq (s := s) surface pos (Block.ofOutcome s shown o)
  have hnotes : ∀ l ∈ (Block.ofOutcome s shown o).lines, s.isNote l = true := fun l hl => isNote_of_mem_lines hs hl
  rw [hr]
  dsimp only
  rw [removeStale_insertLines_iff hw hpos, staleLength_payload hnotes hsep, Nat.add_eq_left, Surface.line?_natCast,
    ← List.head?_drop, ← staleLength_eq_zero_iff]
  cases separator <;> simp

/-- Removal undoes the insertion of a block behind which there is a separator, and, if separators are off, of every
block behind which no note follows: it counts the lines that were inserted and gives the surface back, its cursor
included. -/
theorem removeStale_insertBlock (hs : s.Valid) (hw : surface.WellFormed) (hpos : pos ≤ surface.lineCount)
    (shown : α → String) (o : Outcome α)
    (h : (insertBlock s surface pos (Block.ofOutcome s shown o)).2.1 = true ∨
      s.separate = false ∧ ∀ l, surface.line? pos = some l → s.isNote l = false) :
    removeStale s (insertBlock s surface pos (Block.ofOutcome s shown o)).2.2 (pos - 1) =
      ((insertBlock s surface pos (Block.ofOutcome s shown o)).1, surface) := by
  refine (removeStale_insertBlock_iff hs hw hpos shown o).2 (h.imp_right ?_)
  rintro ⟨hsep, hnote⟩ l hl
  exact ⟨hnote l hl, fun hsep' => absurd (hsep.symm.trans hsep') Bool.false_ne_true⟩

/-- A block without lines comes with its separator alone, and both go although a note follows. -/
theorem removeStale_insertBlock_empty :
    let s : Settings := { showNil := false }
    let surface : Surface := ⟨"s", ["x", "-- => 1"], 1⟩
    let b := Block.ofOutcome s id (.success [] [])
    (insertBlock s surface 1 b).2.2.lines = ["x", "", "-- => 1"] ∧
      removeStale s (insertBlock s surface 1 b).2.2 0 = (1, surface) := by
  intro s surface b
  have hs : s.Valid := Settings.valid_default
  have hw : surface.WellFormed := ⟨by decide, by decide⟩
  have hpos : 1 ≤ surface.lineCount := by decide
  exact ⟨by decide, removeStale_insertBlock hs hw hpos id (.success [] []) (.inl (by decide))⟩

end Undo

end Scratchpad
