import Scratchpad.Proofs.Inspect.Outline

/-!
# Signs of objects

Which objects are shown by a sign, and with which number. At each occurrence in the outline of a value it is known what
is open around it (`Outline.Has`), and this decides what stands there (`shown_at`). Main statement: a table is shown by
its sign just if it is open around the occurrence, every other object always, and the number of an object is its rank
among the objects of its kind (`inspect_signs`).
-/

namespace Scratchpad.Inspect

/-- So many tables may be open at once. -/
def depthLimit (maxDepth : Option Nat) : Nat :=
  min (maxDepth.getD deepest) deepest

/-- What stands at an occurrence of an object inside the tables `inner`. -/
inductive ShownAt (maxDepth : Option Nat) (store : Store) (inner : List Nat) (r : Ref) : Outline → Prop where
  /-- An object that is no table, or one that is open. -/
  | sign (h : r.kind ≠ .table ∨ r.id ∈ inner) : ShownAt maxDepth store inner r (.sign r)
  | elided (hk : r.kind = .table) (hr : r.id ∉ inner) (h : depthLimit maxDepth ≤ inner.length) :
    ShownAt maxDepth store inner r (.elided r)
  | table {parts : List (Part Outline)} (hk : r.kind = .table) (hr : r.id ∉ inner)
      (h : inner.length < depthLimit maxDepth) (hparts : parts.map (Part.map Outline.value) = (store r.id).parts) :
    ShownAt maxDepth store inner r (.table r parts)

variable {maxDepth : Option Nat} {store : Store} {v : Value} {u : Outline} {inner : List Nat} {r : Ref}

theorem depthLimit_le_iff {n room : Nat} (h : deepest = room + n) :
    depthLimit maxDepth ≤ n ↔ (∃ d ∈ maxDepth, d ≤ n) ∨ room = 0 := by
  cases maxDepth with
  | none => simp [depthLimit]; omega
  | some d => simp [depthLimit]; omega

theorem depthLimit_le {d : Nat} (h : d ∈ maxDepth) : depthLimit maxDepth ≤ d := by
  obtain rfl := Option.mem_def.1 h
  exact Nat.min_le_left _ _

/-- What stands at an occurrence depends on the object and on what is open around it. -/
theorem shown_at (h : (outline maxDepth store deepest [] v).Has inner u) (hu : u.value = .ref r) :
    ShownAt maxDepth store inner r u := by
  obtain ⟨room, hroom, heq⟩ := h.eq_outline rfl
  rw [hu, List.append_nil] at heq
  rcases outline_cases maxDepth store room inner (.ref r) with
    ⟨hs, -⟩ | ⟨s, hs, ⟨hsign, ho⟩ | ⟨hk, hr, ⟨hdeep, ho⟩ | ⟨hlt, n, hn, ho⟩⟩⟩
  · cases hs
  all_goals
    cases hs
    rw [heq, ho]
  · exact .sign hsign
  · exact .elided hk hr ((depthLimit_le_iff hroom).2 hdeep)
  · refine .table hk hr ?_ ?_
    · by_contra hle
      rcases (depthLimit_le_iff hroom).1 (Nat.not_lt.1 hle) with ⟨d, hd, hle⟩ | rfl
      · exact absurd (hlt d hd) (Nat.not_lt.2 hle)
      · omega
    · have hvalue : (fun p : Part Value =>
          (p.map (outline maxDepth store n (r.id :: inner))).map Outline.value) = id := by
        funext p
        rw [Part.map_map]
        cases p <;> simp [Part.map]
      rw [List.map_map]
      exact (congrArg (List.map · _) hvalue).trans (List.map_id _)

/-- No occurrence is inside more tables than may be open at once. -/
theorem Outline.Has.length_le (h : (outline maxDepth store deepest [] v).Has inner u) :
    inner.length ≤ depthLimit maxDepth := by
  cases inner with
  | nil => exact Nat.zero_le _
  | cons a inner =>
    obtain ⟨r, parts, -, htable⟩ := h.parent (List.cons_ne_nil a inner)
    cases shown_at htable rfl with
    | table _ _ hlt _ => exact hlt

/-! ## Texts of occurrences -/

section Texts

variable (layout : Layout) (number : Ref → Nat) (level : Nat)

theorem head?_arrange (scalars : Bool) (items : List (List Char)) :
    (arrange layout level scalars items).head? = some '\x7b' := by
  unfold arrange
  dsimp only
  split <;> rfl

/-- No table is taken for a sign when it is opened or elided. -/
theorem text_ne_signText (n : Nat) (s : Ref) (h : u = .elided r ∨ ∃ parts, u = .table r parts) :
    u.text layout number level ≠ signText n s := by
  have hhead : (u.text layout number level).head? = some '\x7b' := by
    rcases h with rfl | ⟨parts, rfl⟩
    · rfl
    · rw [Outline.text]
      split
      · rfl
      · exact head?_arrange layout level _ _
  intro heq
  rw [heq] at hhead
  cases hhead

end Texts

/-- The text of a value is that of its outline. At each occurrence of an object, a table is shown by its sign just if it
is open there, and otherwise with all its parts, unless it is too deep; every other object is shown by its sign. The
numbers in the signs are the ranks of the objects, so equal numbers mean the same object of a kind. -/
theorem inspect_signs (layout : Layout) (store : Store) (v : Value) :
    let o := outline layout.maxDepth store deepest [] v
    let number := rank o.refs
    inspect layout store v = String.ofList (o.text layout number 0) ∧
      (∀ inner u r, o.Has inner u → u.value = .ref r →
        (r.kind = .table → (u.text layout number inner.length = signText (number r) r ↔ r.id ∈ inner)) ∧
          (r.kind ≠ .table → u.text layout number inner.length = signText (number r) r) ∧
          (r.kind = .table → r.id ∉ inner → inner.length < depthLimit layout.maxDepth →
            ∃ parts, u = .table r parts ∧ parts.map (Part.map Outline.value) = (store r.id).parts)) ∧
      ∀ inner u r inner' u' r', o.Has inner u → u.value = .ref r → o.Has inner' u' → u'.value = .ref r' →
        r.kind = r'.kind → (number r = number r' ↔ r = r') := by
  intro o number
  refine ⟨inspect_eq layout store v, fun inner u r h hu => ?_, fun inner u r inner' u' r' h hu h' hu' hk => ?_⟩
  · cases shown_at h hu with
    | sign hsign =>
      refine ⟨fun hk => iff_of_true rfl (hsign.resolve_left (not_not.2 hk)), fun _ => rfl, fun hk hr _ => ?_⟩
      exact absurd (hsign.resolve_left (not_not.2 hk)) hr
    | elided hk hr hle =>
      refine ⟨fun _ => iff_of_false (text_ne_signText _ _ _ _ _ (.inl rfl)) hr, fun hno => absurd hk hno, ?_⟩
      exact fun _ _ hlt => absurd hlt (Nat.not_lt.2 hle)
    | table hk hr hlt hparts =>
      refine ⟨fun _ => iff_of_false (text_ne_signText _ _ _ _ _ (.inr ⟨_, rfl⟩)) hr, fun hno => absurd hk hno, ?_⟩
      exact fun _ _ _ => ⟨_, rfl, hparts⟩
  · have hmem : r ∈ o.refs := by
      refine h.refs_subset (Outline.mem_refs_of_value hu ?_)
      cases shown_at h hu <;> rfl
    exact rank_eq_iff hmem hk

end Scratchpad.Inspect
