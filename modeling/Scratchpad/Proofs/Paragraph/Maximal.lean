import Scratchpad.Proofs.Paragraph

/-!
# Paragraphs are maximal

A paragraph of some lines is a range without blank lines that no range without blank lines goes beyond
(`IsParagraph`). Two paragraphs are the same, or a blank line divides them (`IsParagraph.eq_or_divided`): otherwise one
of them would begin or end inside the other or directly beside it. Main statement: the paragraph at a cursor is the one
that the cursor is in, and there is none just if the cursor is on no line or on a blank one (`paragraph?_exact`). So it
does not matter from which of its lines it was looked for.
-/

namespace Scratchpad

/-- The line holds white space only. -/
def IsBlank (line : String) : Prop :=
  ∀ c ∈ line.toList, Text.isSpace c = true

/-- The lines from `first` to `last` are not blank, and the lines directly before and behind them are blank or
missing. -/
structure IsParagraph (lines : List String) (first last : Nat) : Prop where
  first_le : first ≤ last
  last_lt : last < lines.length
  ink : ∀ i l, first ≤ i → i ≤ last → lines[i]? = some l → ¬ IsBlank l
  before : ∀ i l, i + 1 = first → lines[i]? = some l → IsBlank l
  behind : ∀ l, lines[last + 1]? = some l → IsBlank l

/-- A blank line stands behind the line `last` and before the line `first`. -/
def Divided (lines : List String) (last first : Nat) : Prop :=
  ∃ i l, last < i ∧ i < first ∧ lines[i]? = some l ∧ IsBlank l

theorem isBlank_iff {l : String} : Text.isBlank l = true ↔ IsBlank l :=
  List.all_eq_true

variable {lines : List String} {cursor : Int} {first last first' last' : Nat}

/-! ## Two paragraphs -/

namespace IsParagraph

/-- Every line of a paragraph is there, and is not blank. -/
theorem exists_ink (h : IsParagraph lines first last) {i : Nat} (hfirst : first ≤ i) (hlast : i ≤ last) :
    ∃ l, lines[i]? = some l ∧ ¬ IsBlank l := by
  have hlt : i < lines.length := Nat.lt_of_le_of_lt hlast h.last_lt
  exact ⟨lines[i], List.getElem?_eq_getElem hlt, h.ink i _ hfirst hlast (List.getElem?_eq_getElem hlt)⟩

/-- No line of a paragraph stands directly before another one. -/
theorem before_notMem (h : IsParagraph lines first last) (h' : IsParagraph lines first' last') {i : Nat}
    (hi : i + 1 = first) : ¬ (first' ≤ i ∧ i ≤ last') := by
  rintro ⟨hfirst, hlast⟩
  obtain ⟨l, hl, hink⟩ := h'.exists_ink hfirst hlast
  exact hink (h.before i l hi hl)

/-- No line of a paragraph stands directly behind another one. -/
theorem behind_notMem (h : IsParagraph lines first last) (h' : IsParagraph lines first' last') :
    ¬ (first' ≤ last + 1 ∧ last + 1 ≤ last') := by
  rintro ⟨hfirst, hlast⟩
  obtain ⟨l, hl, hink⟩ := h'.exists_ink hfirst hlast
  exact hink (h.behind l hl)

/-- The line behind a paragraph divides it from one that begins further down. -/
theorem divided (h : IsParagraph lines first last) (h' : IsParagraph lines first' last') (hlt : last + 1 < first') :
    Divided lines last first' := by
  have hfirst := h'.first_le
  have hlast := h'.last_lt
  have hget : lines[last + 1]? = some lines[last + 1] := List.getElem?_eq_getElem (by omega)
  exact ⟨last + 1, _, Nat.lt_succ_self last, hlt, hget, h.behind _ hget⟩

/-- Paragraphs with a line in common are the same. -/
theorem eq_of_overlap (h : IsParagraph lines first last) (h' : IsParagraph lines first' last') (hle : first ≤ last')
    (hle' : first' ≤ last) : (first, last) = (first', last') := by
  have hfirst : first = first' := by
    rcases Nat.lt_trichotomy first first' with hlt | heq | hlt
    · exact absurd ⟨by omega, by omega⟩ (h'.before_notMem h (i := first' - 1) (by omega))
    · exact heq
    · exact absurd ⟨by omega, by omega⟩ (h.before_notMem h' (i := first - 1) (by omega))
  have hlast : last = last' := by
    rcases Nat.lt_trichotomy last last' with hlt | heq | hlt
    · exact absurd ⟨by omega, hlt⟩ (h.behind_notMem h')
    · exact heq
    · exact absurd ⟨by omega, hlt⟩ (h'.behind_notMem h)
  rw [hfirst, hlast]

theorem eq_or_divided (h : IsParagraph lines first last) (h' : IsParagraph lines first' last') :
    (first, last) = (first', last') ∨ Divided lines last first' ∨ Divided lines last' first := by
  by_cases hdown : last + 1 < first'
  · exact .inr (.inl (h.divided h' hdown))
  by_cases hup : last' + 1 < first
  · exact .inr (.inr (h'.divided h hup))
  -- Neither begins directly behind the other, so they have a line in common.
  have hbehind := h.behind_notMem h'
  have hbehind' := h'.behind_notMem h
  have hle := h.first_le
  have hle' := h'.first_le
  exact .inl (h.eq_of_overlap h' (by omega) (by omega))

end IsParagraph

/-! ## The paragraph at a cursor -/

theorem paragraph?_natCast_eq_none_iff {n : Nat} :
    paragraph? lines n = none ↔ ∀ l, lines[n]? = some l → IsBlank l := by
  have hneg : ¬ (n : Int) < 0 := by omega
  simp only [paragraph?, hneg, if_false, Int.toNat_natCast]
  cases lines[n]? with
  | none => simp
  | some line => by_cases hblank : Text.isBlank line = true <;> simp [hblank, ← isBlank_iff]

theorem paragraph?_eq_none_iff : paragraph? lines cursor = none ↔ cursor < 0 ∨ (lines.length : Int) ≤ cursor ∨
    ∃ (n : Nat) (l : String), cursor = n ∧ lines[n]? = some l ∧ IsBlank l := by
  rcases Int.lt_or_le cursor 0 with hneg | hpos
  · exact ⟨fun _ => .inl hneg, fun _ => if_pos hneg⟩
  obtain ⟨n, rfl⟩ := Int.eq_ofNat_of_zero_le hpos
  rw [paragraph?_natCast_eq_none_iff]
  constructor
  · intro h
    rcases Nat.lt_or_ge n lines.length with hlt | hge
    · have hget : lines[n]? = some lines[n] := List.getElem?_eq_getElem hlt
      exact .inr (.inr ⟨n, _, rfl, hget, h _ hget⟩)
    · exact .inr (.inl (Int.ofNat_le.2 hge))
  · rintro (hneg | hge | ⟨m, l, hm, hl, hblank⟩) x hx
    · omega
    · have hlt := (List.getElem?_eq_some_iff.1 hx).1
      omega
    · obtain rfl := Int.ofNat_inj.1 hm
      obtain rfl := Option.some.inj (hx.symm.trans hl)
      exact hblank

/-- Lines without a blank one between blank or missing ones are a paragraph. -/
theorem isParagraph_append {before ink after : List String} (hbefore : StartsBlank before.reverse)
    (hink : ∀ l ∈ ink, Text.isBlank l = false) (hafter : StartsBlank after) (hne : ink ≠ []) :
    IsParagraph (before ++ (ink ++ after)) before.length (before.length + ink.length - 1) := by
  have hpos := List.length_pos_iff.2 hne
  constructor
  case first_le => omega
  case last_lt =>
    simp only [List.length_append]
    omega
  case ink =>
    intro i l hfirst hlast hget
    rw [List.getElem?_append_right hfirst, List.getElem?_append_left (by omega)] at hget
    have hl := hink l (List.mem_of_getElem? hget)
    simp [← isBlank_iff, hl]
  case before =>
    intro i l hi hget
    rw [List.getElem?_append_left (by omega)] at hget
    have hhead : before.reverse.head? = some l := by
      rw [List.head?_reverse, List.getLast?_eq_getElem?, ← hget]
      congr 1
      omega
    rw [StartsBlank, hhead] at hbefore
    exact isBlank_iff.1 hbefore
  case behind =>
    intro l hget
    have hindex : before.length + ink.length - 1 + 1 - before.length - ink.length = 0 := by omega
    rw [List.getElem?_append_right (by omega), List.getElem?_append_right (by omega), hindex] at hget
    rw [StartsBlank, List.head?_eq_getElem?, hget] at hafter
    exact isBlank_iff.1 hafter

theorem isParagraph_of_paragraph? (h : paragraph? lines cursor = some (first, last)) :
    IsParagraph lines first last ∧ first ≤ cursor ∧ cursor ≤ last := by
  obtain ⟨before, ink, after, n, rfl, hbefore, hink, hafter, hn, rfl, rfl, hlast⟩ := paragraph?_eq_some h
  obtain rfl : last = before.length + ink.length - 1 := by omega
  exact ⟨isParagraph_append hbefore hink hafter (List.length_pos_iff.1 (by omega)), by omega, by omega⟩

/-- The paragraph at a cursor is the one that the cursor is in. -/
theorem paragraph?_eq_some_iff : paragraph? lines cursor = some (first, last) ↔
    IsParagraph lines first last ∧ first ≤ cursor ∧ cursor ≤ last := by
  refine ⟨isParagraph_of_paragraph?, ?_⟩
  rintro ⟨h, hfirst, hlast⟩
  obtain ⟨n, rfl⟩ := Int.eq_ofNat_of_zero_le (by omega : 0 ≤ cursor)
  obtain ⟨l, hl, hink⟩ := h.exists_ink (i := n) (by omega) (by omega)
  cases hfound : paragraph? lines n with
  | none => exact absurd (paragraph?_natCast_eq_none_iff.1 hfound l hl) hink
  | some r =>
    obtain ⟨h', hfirst', hlast'⟩ := isParagraph_of_paragraph? hfound
    exact congrArg some (h'.eq_of_overlap h (by omega) (by omega))

/-- There is a paragraph at a cursor unless the cursor is on no line or on a blank one. It is the only one that the
cursor is in, it is found from its own lines alone, and blank lines divide it from the paragraphs of other cursors. -/
theorem paragraph?_exact (lines : List String) (cursor : Int) :
    (paragraph? lines cursor = none ↔ cursor < 0 ∨ (lines.length : Int) ≤ cursor ∨
      ∃ (n : Nat) (l : String), cursor = n ∧ lines[n]? = some l ∧ IsBlank l) ∧
    (∀ first last : Nat, paragraph? lines cursor = some (first, last) ↔
      IsParagraph lines first last ∧ first ≤ cursor ∧ cursor ≤ last) ∧
    ∀ first last : Nat, paragraph? lines cursor = some (first, last) → ∀ cursor' : Int,
      (paragraph? lines cursor' = some (first, last) ↔ first ≤ cursor' ∧ cursor' ≤ last) ∧
        ∀ first' last' : Nat, paragraph? lines cursor' = some (first', last') →
          (first, last) = (first', last') ∨ Divided lines last first' ∨ Divided lines last' first := by
  refine ⟨paragraph?_eq_none_iff, fun first last => paragraph?_eq_some_iff, fun first last h cursor' => ?_⟩
  have hpar := (isParagraph_of_paragraph? h).1
  refine ⟨?_, fun first' last' h' => hpar.eq_or_divided (isParagraph_of_paragraph? h').1⟩
  rw [paragraph?_eq_some_iff]
  exact and_iff_right hpar

/-- A line of white space divides paragraphs as an empty one does. -/
example : paragraph? ["a", " \t", "b", "c"] 3 = some (2, 3) := by
  decide

end Scratchpad
