/-!
# Lines

A text and its lines. Only the line feed ends a line. Main statements: splitting and joining are inverse
(`joinLines_splitLines`), in the other direction for lines that hold no line feed (`splitLines_joinLines`).
-/

namespace Scratchpad.Text

/-- The pieces between the separators, one more than there are separators. -/
def splitAtChar (sep : Char) : List Char → List (List Char)
  | [] => [[]]
  | c :: r =>
    if c = sep then [] :: splitAtChar sep r
    else match splitAtChar sep r with
      | [] => [[c]]
      | p :: ps => (c :: p) :: ps

/-- The pieces put together again with the separator between them. -/
def joinWithChar (sep : Char) : List (List Char) → List Char
  | [] => []
  | [p] => p
  | p :: q :: ps => p ++ sep :: joinWithChar sep (q :: ps)

/-- The lines of a text. The empty text has one empty line. -/
def splitLines (s : String) : List String :=
  (splitAtChar '\n' s.toList).map String.ofList

/-- The text with the given lines. -/
def joinLines (lines : List String) : String :=
  String.ofList (joinWithChar '\n' (lines.map String.toList))

theorem splitAtChar_ne_nil (sep : Char) (cs : List Char) : splitAtChar sep cs ≠ [] := by
  cases cs with
  | nil => simp [splitAtChar]
  | cons c r =>
    unfold splitAtChar
    split
    · simp
    · split <;> simp

theorem joinWithChar_splitAtChar (sep : Char) (cs : List Char) : joinWithChar sep (splitAtChar sep cs) = cs := by
  induction cs with
  | nil => rfl
  | cons c r ih =>
    obtain ⟨p, ps, hp⟩ := List.exists_cons_of_ne_nil (splitAtChar_ne_nil sep r)
    by_cases h : c = sep
    · rw [hp] at ih
      simp [splitAtChar, h, hp, joinWithChar, ih]
    · rw [hp] at ih
      cases ps with
      | nil => simpa [splitAtChar, h, hp, joinWithChar] using ih
      | cons q qs => simpa [splitAtChar, h, hp, joinWithChar] using ih

theorem splitAtChar_append (sep : Char) {p : List Char} (hp : sep ∉ p) (cs : List Char) :
    splitAtChar sep (p ++ sep :: cs) = p :: splitAtChar sep cs := by
  induction p with
  | nil => simp [splitAtChar]
  | cons c r ih =>
    have hc : c ≠ sep := fun e => hp (by simp [e])
    have hr : sep ∉ r := fun e => hp (by simp [e])
    simp [splitAtChar, hc, ih hr]

theorem splitAtChar_of_not_mem (sep : Char) {p : List Char} (hp : sep ∉ p) : splitAtChar sep p = [p] := by
  induction p with
  | nil => rfl
  | cons c r ih =>
    have hc : c ≠ sep := fun e => hp (by simp [e])
    have hr : sep ∉ r := fun e => hp (by simp [e])
    simp [splitAtChar, hc, ih hr]

/-- No piece holds the separator. -/
theorem not_mem_of_mem_splitAtChar {sep : Char} {cs p : List Char} (h : p ∈ splitAtChar sep cs) : sep ∉ p := by
  induction cs generalizing p with
  | nil =>
    rw [splitAtChar, List.mem_singleton] at h
    simp [h]
  | cons c r ih =>
    obtain ⟨q, qs, hq⟩ := List.exists_cons_of_ne_nil (splitAtChar_ne_nil sep r)
    rw [hq] at ih
    by_cases hc : c = sep
    · rw [splitAtChar, if_pos hc, hq, List.mem_cons] at h
      rcases h with rfl | h
      · simp
      · exact ih h
    · rw [splitAtChar, if_neg hc, hq, List.mem_cons] at h
      rcases h with rfl | h
      · simpa [Ne.symm hc] using ih List.mem_cons_self
      · exact ih (List.mem_cons_of_mem _ h)

theorem splitAtChar_joinWithChar (sep : Char) {ps : List (List Char)} (hne : ps ≠ []) (h : ∀ p ∈ ps, sep ∉ p) :
    splitAtChar sep (joinWithChar sep ps) = ps := by
  induction ps with
  | nil => exact absurd rfl hne
  | cons p qs ih =>
    cases qs with
    | nil => simpa [joinWithChar] using splitAtChar_of_not_mem sep (h p (by simp))
    | cons q qs =>
      rw [joinWithChar, splitAtChar_append sep (h p (by simp)), ih (by simp) fun x hx => h x (by simp [hx])]

theorem splitLines_ne_nil (s : String) : splitLines s ≠ [] := by
  simpa [splitLines] using splitAtChar_ne_nil '\n' s.toList

/-- Joining the lines of a text gives the text. -/
theorem joinLines_splitLines (s : String) : joinLines (splitLines s) = s := by
  simp [joinLines, splitLines, Function.comp_def, joinWithChar_splitAtChar]

/-- Lines without line feeds are the lines of the text they make. -/
theorem splitLines_joinLines {lines : List String} (hne : lines ≠ []) (h : ∀ l ∈ lines, '\n' ∉ l.toList) :
    splitLines (joinLines lines) = lines := by
  have h' : ∀ p ∈ lines.map String.toList, '\n' ∉ p := by
    intro p hp
    obtain ⟨l, hl, rfl⟩ := List.mem_map.1 hp
    exact h l hl
  simp [joinLines, splitLines, splitAtChar_joinWithChar '\n' (by simpa using hne) h', Function.comp_def]

/-- A line of a text holds no line feed. -/
theorem not_mem_of_mem_splitLines {s l : String} (h : l ∈ splitLines s) : '\n' ∉ l.toList := by
  obtain ⟨p, hp, rfl⟩ := List.mem_map.1 h
  rw [String.toList_ofList]
  exact not_mem_of_mem_splitAtChar hp

theorem mem_joinLines_iff {lines : List String} {c : Char} (hc : c ≠ '\n') :
    c ∈ (joinLines lines).toList ↔ ∃ l ∈ lines, c ∈ l.toList := by
  have hjoin : ∀ ps : List (List Char), c ∈ joinWithChar '\n' ps ↔ ∃ p ∈ ps, c ∈ p := by
    intro ps
    induction ps with
    | nil => simp [joinWithChar]
    | cons p qs ih =>
      cases qs with
      | nil => simp [joinWithChar]
      | cons q qs => simp [joinWithChar, ih, hc]
  rw [joinLines, String.toList_ofList, hjoin]
  constructor
  · rintro ⟨p, hp, hcp⟩
    obtain ⟨l, hl, rfl⟩ := List.mem_map.1 hp
    exact ⟨l, hl, hcp⟩
  · rintro ⟨l, hl, hcl⟩
    exact ⟨_, List.mem_map_of_mem hl, hcl⟩

theorem joinWithChar_append (sep : Char) {ps qs : List (List Char)} (hp : ps ≠ []) (hq : qs ≠ []) :
    joinWithChar sep (ps ++ qs) = joinWithChar sep ps ++ sep :: joinWithChar sep qs := by
  induction ps with
  | nil => exact absurd rfl hp
  | cons p rest ih =>
    cases rest with
    | nil =>
      obtain ⟨q, qs, rfl⟩ := List.exists_cons_of_ne_nil hq
      rfl
    | cons p' rest =>
      have hrest : joinWithChar sep (p' :: (rest ++ qs)) = _ := ih (List.cons_ne_nil p' rest)
      simp [joinWithChar, hrest]

theorem joinLines_append {a b : List String} (ha : a ≠ []) (hb : b ≠ []) :
    joinLines (a ++ b) = joinLines a ++ "\n" ++ joinLines b := by
  rw [joinLines, List.map_append, joinWithChar_append '\n' (by simpa using ha) (by simpa using hb), joinLines, joinLines]
  apply String.toList_inj.1
  simp

/-- An empty last line ends the text with a line feed. -/
theorem joinLines_concat_empty {lines : List String} (hne : lines ≠ []) :
    joinLines (lines ++ [""]) = joinLines lines ++ "\n" := by
  rw [joinLines_append hne (List.cons_ne_nil _ _), show joinLines [""] = "" from rfl, String.append_empty]

end Scratchpad.Text
