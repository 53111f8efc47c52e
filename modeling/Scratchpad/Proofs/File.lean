import Scratchpad.File
import Scratchpad.Proofs.Session.Run
import Scratchpad.Proofs.Text.Utf8

/-!
# Files that are written and read

A name is normalised once and for all (`normalName_normalName`), so a file is found under the name that it was written
to (`find?_write`). A text without carriage returns is read as it was written (`read_ofString`).
-/

namespace Scratchpad

open Text

namespace File

/-! ## Names -/

/-- The steps of a name that lead somewhere. -/
def steps (cs : List Char) : List (List Char) :=
  (splitAtChar '/' cs).filter fun s => s ≠ [] && s ≠ ['.']

/-- A step leads somewhere, and no stroke is in it. -/
def IsStep (p : List Char) : Prop :=
  p ≠ [] ∧ p ≠ ['.'] ∧ '/' ∉ p

theorem isStep_of_mem_steps {cs p : List Char} (h : p ∈ steps cs) : IsStep p := by
  obtain ⟨hp, hstep⟩ := List.mem_filter.1 h
  obtain ⟨hne, hdot⟩ := Bool.and_eq_true_iff.1 hstep
  exact ⟨of_decide_eq_true hne, of_decide_eq_true hdot, not_mem_of_mem_splitAtChar hp⟩

/-- The steps of joined steps are these steps. -/
theorem steps_joinWithChar {ps : List (List Char)} (h : ∀ p ∈ ps, IsStep p) : steps (joinWithChar '/' ps) = ps := by
  cases ps with
  | nil => rfl
  | cons p qs =>
    rw [steps, splitAtChar_joinWithChar '/' (by simp) fun q hq => (h q hq).2.2]
    refine List.filter_eq_self.2 fun q hq => ?_
    rw [decide_eq_true (h q hq).1, decide_eq_true (h q hq).2.1]
    rfl

/-- A stroke at the front leads nowhere. -/
theorem steps_stroke_cons (cs : List Char) : steps ('/' :: cs) = steps cs := by
  rw [steps, steps, splitAtChar, if_pos rfl]
  rfl

theorem joinWithChar_head {ps : List (List Char)} (h : ∀ p ∈ ps, IsStep p) :
    (joinWithChar '/' ps = [] ∧ ps = []) ∨ ∃ c r, joinWithChar '/' ps = c :: r ∧ c ≠ '/' := by
  rcases ps with _ | ⟨p, _ | ⟨q, qs⟩⟩
  · exact .inl ⟨rfl, rfl⟩
  all_goals
    right
    obtain ⟨hne, -, hstroke⟩ := h p List.mem_cons_self
    obtain ⟨c, r, rfl⟩ := List.exists_cons_of_ne_nil hne
    exact ⟨c, _, rfl, fun hc => hstroke (by simp [hc])⟩

theorem rootOf_cases (cs : List Char) : rootOf cs = [] ∨ rootOf cs = ['/'] ∨ rootOf cs = ['/', '/'] := by
  unfold rootOf
  split <;> simp

/-- What follows a root does not belong to it. -/
theorem rootOf_append {root : List Char} (hroot : root = [] ∨ root = ['/'] ∨ root = ['/', '/'])
    {ps : List (List Char)} (h : ∀ p ∈ ps, IsStep p) : rootOf (root ++ joinWithChar '/' ps) = root := by
  rcases joinWithChar_head h with ⟨hnil, -⟩ | ⟨c, r, hcons, hc⟩
  · rw [hnil, List.append_nil]
    rcases hroot with rfl | rfl | rfl <;> rfl
  · rw [hcons]
    rcases hroot with rfl | rfl | rfl <;> simp [rootOf, hc]

theorem steps_append {root : List Char} (hroot : root = [] ∨ root = ['/'] ∨ root = ['/', '/'])
    {ps : List (List Char)} (h : ∀ p ∈ ps, IsStep p) : steps (root ++ joinWithChar '/' ps) = ps := by
  rcases hroot with rfl | rfl | rfl
  · exact steps_joinWithChar h
  · rw [List.singleton_append, steps_stroke_cons, steps_joinWithChar h]
  · rw [List.cons_append, List.singleton_append, steps_stroke_cons, steps_stroke_cons, steps_joinWithChar h]

theorem normalName_eq (name : String) : normalName name =
    match rootOf name.toList ++ joinWithChar '/' (steps name.toList) with
    | [] => "."
    | cs => String.ofList cs :=
  rfl

/-- A normal name is its own normal form. -/
theorem normalName_normalName (name : String) : normalName (normalName name) = normalName name := by
  have hroot := rootOf_cases name.toList
  have hsteps : ∀ p ∈ steps name.toList, IsStep p := fun p => isStep_of_mem_steps
  rw [normalName_eq name]
  split
  · decide
  · rename_i hne
    rw [normalName_eq, String.toList_ofList, rootOf_append hroot hsteps, steps_append hroot hsteps]
    split
    · rename_i hnil
      exact absurd hnil hne
    · rfl

/-! ## Contents -/

/-- A text without carriage returns is read as it was written. -/
theorem read_ofString {text : String} (h : '\r' ∉ text.toList) : read (some (Utf8.ofString text)) = .ok text := by
  rw [read, Utf8.ofString, Utf8.decode_encode]
  dsimp only
  rw [unifyNewlines_eq_self h, String.ofList_toList]

/-- A text that was read has no carriage return. -/
theorem not_mem_of_read {content? : Option (List UInt8)} {text : String} (h : read content? = .ok text) :
    '\r' ∉ text.toList := by
  unfold read at h
  split at h
  · cases h
  · split at h
    · rw [← Except.ok.inj h, String.toList_ofList]
      exact not_mem_unifyNewlines _
    · cases h

end File

/-- A file that was written is found under its name. -/
theorem Directory.find?_write (d : Directory) (name text : String) :
    (d.write (File.normalName name) text).find? name = some (Utf8.ofString text) := by
  rw [find?, write, File.normalName_normalName]
  split
  · rename_i hsome
    obtain ⟨old, hold⟩ := Option.isSome_iff_exists.1 hsome
    rw [Session.lookup_replace_self, hold, Option.map_some]
  · rename_i hnone
    rw [List.lookup_append, Option.not_isSome_iff_eq_none.1 hnone, Option.none_or, List.lookup_cons_self]

end Scratchpad
