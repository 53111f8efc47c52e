import Scratchpad.Proofs.Inspect.Nesting
import Scratchpad.Proofs.Inspect.Split

/-!
# The depth limit

Where a table is elided, and what a limit changes. The text of each occurrence stands in the text of the value
(`Outline.Has.text_within`), and the parts of a table are all its entries and its metatable (`Table.complete_parts`). Main
statement: a table that is not open is elided just if it is inside as many tables as may be open, and otherwise shown
with all its parts; a limit that no table reaches changes nothing; and braces are nested one level deeper than the
limit at most (`inspect_elided`).
-/

namespace Scratchpad.Inspect

/-! ## Texts in texts -/

section Infix

variable {layout : Layout} {number : Ref → Nat} {level : Nat} {t : List Char} {items : List (List Char)}

theorem infix_joinItems (sep : List Char) : ∀ {items : List (List Char)}, t ∈ items → t <:+: joinItems sep items
  | [_], h => by
    obtain rfl := List.mem_singleton.1 h
    exact List.infix_refl t
  | u :: w :: ts, h => by
    rw [joinItems]
    rcases List.mem_cons.1 h with rfl | h
    · exact ((List.prefix_append t sep).trans (List.prefix_append _ _)).isInfix
    · exact (infix_joinItems sep h).trans (List.suffix_append _ _).isInfix

/-- The items of a table stand in its text. -/
theorem infix_arrange (scalars : Bool) (h : t ∈ items) : t <:+: arrange layout level scalars items := by
  unfold arrange
  dsimp only
  split
  · have hbody : joinItems [',', ' '] items <:+: oneLine items := ⟨['\x7b', ' '], [' ', '\x7d'], rfl⟩
    exact (infix_joinItems _ h).trans hbody
  · have hline : t <:+: List.replicate (layout.indent * (level + 1)) ' ' ++ t := (List.suffix_append _ _).isInfix
    have hbody := infix_joinItems [',', '\n']
      (List.mem_map_of_mem (f := fun t => List.replicate (layout.indent * (level + 1)) ' ' ++ t) h)
    have hall : joinItems [',', '\n'] (items.map fun t => List.replicate (layout.indent * (level + 1)) ' ' ++ t) <:+:
        manyLines layout.indent level items :=
      ⟨['\x7b', '\n'], '\n' :: List.replicate (layout.indent * level) ' ' ++ ['\x7d'], by simp [manyLines]⟩
    exact (hline.trans hbody).trans hall

namespace Outline

variable {o u : Outline} {p : Part Outline} {parts : List (Part Outline)} {r : Ref} {inner : List Nat}

/-- The members of a part stand in its text, bare keys apart. -/
theorem infix_partText (ho : o ∈ p.members) (hs : o.isScalar = false) :
    o.text layout number level <:+: partText layout number level p := by
  cases p with
  | positional w =>
    obtain rfl := List.mem_singleton.1 ho
    exact List.infix_refl _
  | metatable w =>
    obtain rfl := List.mem_singleton.1 ho
    exact (List.suffix_append _ _).isInfix
  | entry k w =>
    rw [partText]
    rcases List.mem_cons.1 ho with rfl | ho
    · have hbare : o.bare? = none := by
        cases o with
        | scalar v => cases hs
        | _ => rfl
      have hkey : o.text layout number level <:+: keyText o.bare? (o.text layout number level) := by
        rw [hbare]
        exact ⟨['['], [']'], rfl⟩
      exact (hkey.trans (List.prefix_append _ _).isInfix).trans (List.prefix_append _ _).isInfix
    · obtain rfl := List.mem_singleton.1 ho
      exact (List.suffix_append _ _).isInfix

/-- The parts of a table stand in its text. -/
theorem partText_within (hp : p ∈ parts) :
    partText layout number (level + 1) p <:+: (table r parts).text layout number level := by
  rw [text_table layout number level r parts (List.ne_nil_of_mem hp)]
  exact infix_arrange _ (List.mem_map_of_mem hp)

/-- What occurs in an outline stands in its text, bare keys apart. -/
theorem Has.text_within (h : o.Has inner u) (hs : u.isScalar = false) :
    ∀ level, u.text layout number (level + inner.length) <:+: o.text layout number level := by
  induction h with
  | self => exact fun _ => List.infix_refl _
  | @part r parts p o u inner hp ho h ih =>
    intro level
    have hmember : o.isScalar = false := by
      cases h with
      | self => exact hs
      | part => rfl
    have hdeeper := ih hs (level + 1)
    rw [Nat.add_assoc, Nat.add_comm 1, ← List.length_singleton (a := r.id), ← List.length_append] at hdeeper
    exact (hdeeper.trans (infix_partText ho hmember)).trans (partText_within hp)

end Outline

end Infix

/-! ## Opened tables -/

/-- No opened table is taken for an elided one. -/
theorem text_table_ne_ellipsis (layout : Layout) (number : Ref → Nat) (level : Nat) (r : Ref)
    (parts : List (Part Outline)) : (Outline.table r parts).text layout number level ≠ ellipsis := by
  rw [Outline.text]
  split
  · decide
  · -- the character behind the brace is white space
    unfold arrange
    dsimp only
    split <;> simp [oneLine, manyLines, ellipsis]

/-- The parts are all that a table has: its entries, those of the sequence by their places, and its metatable. -/
structure Table.Complete (t : Table) (parts : List (Part Value)) : Prop where
  entries (h : (t.entries.map Prod.fst).Nodup) (k v : Value) : (k, v) ∈ t.entries ↔
    (∃ i : Nat, parts[i]? = some (.positional v) ∧ k = .int (i + 1)) ∨ .entry k v ∈ parts
  metatable (m : Value) : t.metatable = some m ↔ .metatable m ∈ parts

/-- The values of the sequence stand in front of the other parts. -/
theorem Table.getElem?_parts (t : Table) (i : Nat) (v : Value) :
    t.parts[i]? = some (.positional v) ↔ (splitEntries t.entries).1[i]? = some v := by
  rw [Table.parts, List.append_assoc, List.getElem?_append, List.length_map]
  split
  · rw [List.getElem?_map, Option.map_eq_some_iff]
    simp
  · rename_i hge
    rw [List.getElem?_eq_none (Nat.not_lt.1 hge)]
    refine iff_of_false (fun h => ?_) (by simp)
    simpa using List.mem_of_getElem? h

theorem Table.complete_parts (t : Table) : t.Complete t.parts where
  entries h k v := by
    have hkeyed : (k, v) ∈ (splitEntries t.entries).2 ↔ .entry k v ∈ t.parts := by
      simp [Table.parts]
    rw [mem_entries_iff h, hkeyed]
    simp only [Table.getElem?_parts]
  metatable m := by
    cases h : t.metatable <;> simp [Table.parts, h, eq_comm]

/-! ## Limits that no table reaches -/

/-- A limit that no opened table reaches changes nothing. -/
theorem outline_eq_unlimited {maxDepth : Option Nat} {store : Store} : ∀ {room : Nat} {path : List Nat} {v : Value},
    (∀ inner r parts, (outline none store room path v).Has inner (.table r parts) →
      ∀ d ∈ maxDepth, inner.length + path.length < d) →
    outline maxDepth store room path v = outline none store room path v := by
  intro room
  induction room using Nat.strong_induction_on with
  | _ room ih =>
    intro path v h
    rcases outline_cases none store room path v with
      ⟨hs, ho⟩ | ⟨r, rfl, ⟨hsign, ho⟩ | ⟨hk, hr, ⟨hdeep, ho⟩ | ⟨-, n, rfl, ho⟩⟩⟩
    · rw [ho, outline_scalar hs]
    · rw [ho, outline_sign hsign]
    · rw [ho, outline_elided hk hr (.inr (hdeep.resolve_left (by simp)))]
    · rw [ho] at h ⊢
      rw [outline_table hk hr fun d hd => by simpa using h [] r _ .self d hd]
      congr 1
      refine List.map_congr_left fun p hp => Part.map_congr fun w hw => ?_
      refine ih n (Nat.lt_succ_self n) fun inner s parts hin d hd => ?_
      have hmember : outline none store n (r.id :: path) w ∈ (p.map (outline none store n (r.id :: path))).members := by
        rw [Part.members_map]
        exact List.mem_map_of_mem hw
      have hlt := h _ s parts (.part (List.mem_map_of_mem hp) hmember hin) d hd
      simpa [Nat.add_assoc, Nat.add_comm 1] using hlt

theorem Outline.partText_congr {layout layout' : Layout} {number : Ref → Nat} {level : Nat} {p : Part Outline}
    (h : ∀ o ∈ p.members, o.text layout number level = o.text layout' number level) :
    partText layout number level p = partText layout' number level p := by
  cases p with
  | positional o => exact h o (by simp [Part.members])
  | metatable o => rw [partText, partText, h o (by simp [Part.members])]
  | entry k v => rw [partText, partText, h k (by simp [Part.members]), h v (by simp [Part.members])]

/-- The text of an outline does not depend on a limit. -/
theorem Outline.text_unlimited (layout : Layout) (number : Ref → Nat) (o : Outline) :
    ∀ level, o.text { layout with maxDepth := none } number level = o.text layout number level := by
  induction o using Outline.ind with
  | scalar v => exact fun _ => rfl
  | sign r => exact fun _ => rfl
  | elided r => exact fun _ => rfl
  | table r parts ih =>
    intro level
    by_cases hempty : parts = []
    · rw [hempty]
      rfl
    · rw [text_table _ number level r parts hempty, text_table layout number level r parts hempty]
      have hparts : parts.map (partText { layout with maxDepth := none } number (level + 1)) =
          parts.map (partText layout number (level + 1)) :=
        List.map_congr_left fun p hp => partText_congr fun o ho => ih p hp o ho (level + 1)
      rw [hparts]
      rfl

/-- The text of a value is that of its outline. A table that is not open is elided just if it is inside as many tables as
may be open, and otherwise it is shown with all its parts; if no table is opened inside as many in the outline without a
limit, then the limit changes nothing; and braces are nested one level deeper than the limit at most. -/
theorem inspect_elided (layout : Layout) (store : Store) (v : Value) :
    let o := outline layout.maxDepth store deepest [] v
    let number := rank o.refs
    let limit := depthLimit layout.maxDepth
    let text := (inspect layout store v).toList
    text = o.text layout number 0 ∧
      (∀ inner u r, o.Has inner u → u.value = .ref r → r.kind = .table → r.id ∉ inner →
        u.text layout number inner.length <:+: text ∧
          (u.text layout number inner.length = ellipsis ↔ limit ≤ inner.length) ∧
          (inner.length < limit → ∃ parts, u = .table r parts ∧
            (store r.id).Complete (parts.map (Part.map Outline.value)) ∧
            ∀ p ∈ parts, Outline.partText layout number (inner.length + 1) p <:+: u.text layout number inner.length)) ∧
      ((∀ inner r parts, (outline none store deepest [] v).Has inner (.table r parts) → inner.length < limit) →
        inspect layout store v = inspect { layout with maxDepth := none } store v) ∧
      ∀ before after, text = before ++ after → openBraces before ≤ limit + 1 := by
  intro o number limit text
  have htext : text = o.text layout number 0 := by
    simp only [text, inspect_eq, String.toList_ofList]
    rfl
  refine ⟨htext, fun inner u r h hu hk hr => ?_, fun hshallow => ?_, fun before after heq => ?_⟩
  · have hwithin : u.text layout number inner.length <:+: text := by
      have hinside : u.text layout number (0 + inner.length) <:+: o.text layout number 0 :=
        h.text_within (by cases shown_at h hu <;> rfl) 0
      rw [Nat.zero_add] at hinside
      exact htext ▸ hinside
    refine ⟨hwithin, ?_⟩
    cases shown_at h hu with
    | sign hsign => exact absurd (hsign.resolve_left (not_not.2 hk)) hr
    | elided _ _ hle => exact ⟨iff_of_true rfl hle, fun hlt => absurd hlt (Nat.not_lt.2 hle)⟩
    | @table parts _ _ hlt hparts =>
      refine ⟨iff_of_false (text_table_ne_ellipsis _ _ _ _ _) (Nat.not_le.2 hlt), fun _ => ⟨parts, rfl, ?_, ?_⟩⟩
      · exact hparts ▸ (store r.id).complete_parts
      · exact fun p hp => Outline.partText_within hp
  · have hsame : o = outline none store deepest [] v :=
      outline_eq_unlimited fun inner r parts hin d hd =>
        Nat.lt_of_lt_of_le (hshallow inner r parts hin) (depthLimit_le hd)
    rw [inspect_eq, inspect_eq]
    dsimp only
    rw [Outline.text_unlimited, ← hsame]
  · simpa using ((isItem_inspect layout store v).nests.within heq).2

end Scratchpad.Inspect
