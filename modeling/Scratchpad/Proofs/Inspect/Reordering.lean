import Mathlib.Data.List.Forall2
import Mathlib.Logic.Relation
import Scratchpad.Proofs.Inspect.KeyOrder
import Scratchpad.Proofs.Inspect.Outline

/-!
# Tables with reordered entries

Two values are equal as nested tables if they are the same leaf, or tables with the same keys whose values are equal
(`Equal`). The entries may be stored in any order, and the tables may be other objects. The outlines of equal values
differ in their tables only, which no text shows (`Outline.Alike`). Main statement: equal values are shown by the same
text (`inspect_eq_of_equal`).
-/

namespace Scratchpad.Inspect

theorem map_eq_of_forall₂ {α β γ : Type} {R : α → β → Prop} {f : α → γ} {g : β → γ} {l : List α} {l' : List β}
    (h : List.Forall₂ R l l') (hfg : ∀ a b, R a b → f a = g b) : l.map f = l'.map g := by
  induction h with
  | nil => rfl
  | cons hab _ ih => rw [List.map_cons, List.map_cons, hfg _ _ hab, ih]

/-! ## Equal values -/

/-- The values are equal as nested tables without metatables. What is built in finitely many steps has no cycles. -/
inductive Equal (store store' : Store) : Value → Value → Prop where
  | leaf {v : Value} (h : ∀ r, v = .ref r → r.kind ≠ .table) : Equal store store' v v
  | table {r r' : Ref} (hr : r.kind = .table) (hr' : r'.kind = .table) (hmeta : (store r.id).metatable = none)
      (hmeta' : (store' r'.id).metatable = none) (hordinary : Ordinary (store r.id).entries)
      (hordinary' : Ordinary (store' r'.id).entries)
      (hkeys : ∀ k, k ∈ (store r.id).entries.map Prod.fst ↔ k ∈ (store' r'.id).entries.map Prod.fst)
      (hvalues : ∀ k v v', (k, v) ∈ (store r.id).entries → (k, v') ∈ (store' r'.id).entries → Equal store store' v v') :
    Equal store store' (.ref r) (.ref r')

/-- The value `v` is one of the table `w`. -/
def ValueOf (store : Store) (v w : Value) : Prop :=
  ∃ r k, w = .ref r ∧ r.kind = .table ∧ (k, v) ∈ (store r.id).entries

variable {store store' : Store} {v v' : Value}

theorem Equal.symm (h : Equal store store' v v') : Equal store' store v' v := by
  induction h with
  | leaf h => exact .leaf h
  | table hr hr' hmeta hmeta' hordinary hordinary' hkeys _ ih =>
    refine .table hr' hr hmeta' hmeta hordinary' hordinary (fun k => (hkeys k).symm) fun k v' v hv' hv => ?_
    exact ih k v v' hv hv'

/-- A table is equal to one that has, in any order, the same keys with equal values. -/
theorem Equal.of_perm {r r' : Ref} (hr : r.kind = .table) (hr' : r'.kind = .table)
    (hmeta : (store r.id).metatable = none) (hmeta' : (store' r'.id).metatable = none)
    (hordinary : Ordinary (store r.id).entries) (hordinary' : Ordinary (store' r'.id).entries)
    {es : List (Value × Value)} (hperm : es.Perm (store' r'.id).entries)
    (h : List.Forall₂ (fun e e' => e.1 = e'.1 ∧ Equal store store' e.2 e'.2) (store r.id).entries es) :
    Equal store store' (.ref r) (.ref r') := by
  refine .table hr hr' hmeta hmeta' hordinary hordinary' (fun k => ?_) fun k v v' hv hv' => ?_
  · rw [map_eq_of_forall₂ h fun _ _ he => he.1]
    exact (hperm.map Prod.fst).mem_iff
  · obtain ⟨i, hi, heq⟩ := List.getElem_of_mem hv
    obtain ⟨hlength, hget⟩ := List.forall₂_iff_get.1 h
    have hi' : i < es.length := hlength ▸ hi
    obtain ⟨hkey, hvalue⟩ := hget i hi hi'
    simp only [List.get_eq_getElem, heq] at hkey hvalue
    have hmem : (k, es[i].2) ∈ (store' r'.id).entries := hperm.mem_iff.1 (hkey ▸ List.getElem_mem hi')
    exact eq_of_mem_entries hordinary'.nodup_keys hmem hv' ▸ hvalue

/-- Nothing that is equal to something has a cycle below it. -/
theorem Equal.acc (h : Equal store store' v v') : Acc (ValueOf store) v := by
  induction h with
  | leaf h =>
    refine .intro _ ?_
    rintro w ⟨r, k, rfl, hr, -⟩
    exact absurd hr (h r rfl)
  | table hr hr' hmeta hmeta' hordinary hordinary' hkeys _ ih =>
    refine .intro _ ?_
    rintro w ⟨r, k, heq, -, hw⟩
    cases heq
    obtain ⟨⟨k', w'⟩, hw', hk⟩ := List.mem_map.1 ((hkeys k).1 (List.mem_map.2 ⟨_, hw, rfl⟩))
    obtain rfl : k' = k := hk
    exact ih _ w w' hw hw'

theorem not_transGen_self {α : Type} {r : α → α → Prop} {a : α} (h : Acc r a) : ¬ Relation.TransGen r a a := by
  have hacc := h.transGen
  induction hacc with
  | intro a _ ih => exact fun hself => ih a hself h hself

/-- The value lies inside the tables of the path. -/
def Below (store : Store) (path : List Nat) (v : Value) : Prop :=
  ∀ p ∈ path, Relation.TransGen (ValueOf store) v (.ref ⟨.table, p⟩)

namespace Below

variable {path : List Nat} {k : Value} {r : Ref}

/-- A table without cycles is not inside itself. -/
theorem notMem (h : Below store path (.ref r)) (hr : r.kind = .table) (hacc : Acc (ValueOf store) (.ref r)) :
    r.id ∉ path := by
  intro hmem
  obtain ⟨kind, id⟩ := r
  obtain rfl : kind = .table := hr
  exact not_transGen_self hacc (h id hmem)

theorem cons (h : Below store path (.ref r)) (hr : r.kind = .table) (hv : (k, v) ∈ (store r.id).entries) :
    Below store (r.id :: path) v := by
  have hstep : ValueOf store v (.ref r) := ⟨r, k, rfl, hr, hv⟩
  intro p hp
  rcases List.mem_cons.1 hp with rfl | hp
  · obtain ⟨kind, id⟩ := r
    obtain rfl : kind = .table := hr
    exact .single hstep
  · exact .head hstep (h p hp)

end Below

/-! ## Outlines that differ in their tables -/

/-- The outlines show the same, whatever the numbers of tables are. -/
structure Outline.Alike (o o' : Outline) : Prop where
  isScalar : o.isScalar = o'.isScalar
  refs : (o.refs.filter fun r => r.kind != .table) = o'.refs.filter fun r => r.kind != .table
  text (layout : Layout) {number number' : Ref → Nat} (h : ∀ r, r.kind ≠ .table → number r = number' r) (level : Nat) :
    o.text layout number level = o'.text layout number' level

/-- Parts of tables with the same keys and values that show the same. -/
inductive Part.Alike : Part Outline → Part Outline → Prop where
  | positional {o o' : Outline} (h : Outline.Alike o o') : Part.Alike (.positional o) (.positional o')
  | entry (k : Value) {o o' : Outline} (h : Outline.Alike o o') :
    Part.Alike (.entry (.scalar k) o) (.entry (.scalar k) o')

theorem alike_scalar (v : Value) : Outline.Alike (.scalar v) (.scalar v) :=
  ⟨rfl, rfl, fun _ _ _ _ _ => rfl⟩

theorem alike_sign {r : Ref} (hr : r.kind ≠ .table) : Outline.Alike (.sign r) (.sign r) where
  isScalar := rfl
  refs := rfl
  text layout number number' h level := by rw [Outline.text, Outline.text, h r hr]

section Tables

variable {r r' : Ref} (hr : r.kind = .table) (hr' : r'.kind = .table)

include hr hr'

theorem alike_elided : Outline.Alike (.elided r) (.elided r') where
  isScalar := rfl
  refs := by simp [Outline.refs, hr, hr']
  text _ _ _ _ _ := rfl

theorem alike_table {parts parts' : List (Part Outline)} (h : List.Forall₂ Part.Alike parts parts') :
    Outline.Alike (.table r parts) (.table r' parts') where
  isScalar := rfl
  refs := by
    have hparts := map_eq_of_forall₂ (f := fun p => (p.members.flatMap Outline.refs).filter fun r => r.kind != .table)
      (g := fun p => (p.members.flatMap Outline.refs).filter fun r => r.kind != .table) h fun p p' hp => by
        cases hp with
        | positional ho => simpa [Part.members] using ho.refs
        | entry k ho => simpa [Part.members, Outline.refs] using ho.refs
    rw [Outline.refs_table, Outline.refs_table, List.filter_cons, List.filter_cons, if_neg (by simp [hr]),
      if_neg (by simp [hr']), List.filter_flatMap, List.filter_flatMap, List.flatMap_def, List.flatMap_def, hparts]
  text layout number number' hnumber level := by
    by_cases hempty : parts = []
    · obtain rfl := hempty
      cases h
      rfl
    · have hempty' : parts' ≠ [] := by
        rintro rfl
        cases h
        exact hempty rfl
      have hflat : parts.map Outline.isFlat = parts'.map Outline.isFlat := map_eq_of_forall₂ h fun p p' hp => by
        cases hp with
        | positional ho => exact ho.isScalar
        | entry k ho => exact ho.isScalar
      have htexts : parts.map (Outline.partText layout number (level + 1)) =
          parts'.map (Outline.partText layout number' (level + 1)) := map_eq_of_forall₂ h fun p p' hp => by
        cases hp with
        | positional ho => exact ho.text layout hnumber (level + 1)
        | entry k ho =>
          simp only [Outline.partText, Outline.text]
          rw [ho.text layout hnumber (level + 1)]
      have hall : parts.all Outline.isFlat = parts'.all Outline.isFlat := by
        have hid : ∀ l : List (Part Outline), (l.map Outline.isFlat).all id = l.all Outline.isFlat := fun _ =>
          List.all_map
        rw [← hid, ← hid, hflat]
      rw [Outline.text_table _ _ _ _ _ hempty, Outline.text_table _ _ _ _ _ hempty', htexts, hall]

end Tables

/-! ## Outlines of equal values -/

/-- Tables with the same keys have the same parts but for the values, which belong to the same keys. -/
theorem forall₂_parts {t t' : Table} (ht : t.metatable = none) (ht' : t'.metatable = none) (h : Ordinary t.entries)
    (h' : Ordinary t'.entries) (hkeys : ∀ k, k ∈ t.entries.map Prod.fst ↔ k ∈ t'.entries.map Prod.fst)
    {f g : Value → Outline} (hfg : ∀ k v v', (k, v) ∈ t.entries → (k, v') ∈ t'.entries → Outline.Alike (f v) (g v'))
    (hf : ∀ v, v.isScalar = true → f v = .scalar v) (hg : ∀ v, v.isScalar = true → g v = .scalar v) :
    List.Forall₂ Part.Alike (t.parts.map (Part.map f)) (t'.parts.map (Part.map g)) := by
  have hsequence : List.Forall₂ (fun v v' => Outline.Alike (f v) (g v')) (splitEntries t.entries).1
      (splitEntries t'.entries).1 := by
    refine List.forall₂_iff_get.2 ⟨h.length_sequence_eq h' hkeys, fun i hi hi' => ?_⟩
    exact hfg _ _ _ (getElem_sequence_mem h.nodup_keys hi) (getElem_sequence_mem h'.nodup_keys hi')
  have hkeyed : List.Forall₂ (fun e e' => Part.Alike (.entry (f e.1) (f e.2)) (.entry (g e'.1) (g e'.2)))
      (splitEntries t.entries).2 (splitEntries t'.entries).2 := by
    have hkeys := h.keys_keyed_eq h' hkeys
    refine List.forall₂_iff_get.2 ⟨by simpa using congrArg List.length hkeys, fun i hi hi' => ?_⟩
    have hkey : ((splitEntries t.entries).2.get ⟨i, hi⟩).1 = ((splitEntries t'.entries).2.get ⟨i, hi'⟩).1 := by
      have hget := congrArg (·[i]?) hkeys
      simpa [hi, hi'] using hget
    have hmem := (mem_keyed_iff.1 (List.get_mem (splitEntries t.entries).2 ⟨i, hi⟩)).1
    have hmem' := (mem_keyed_iff.1 (List.get_mem (splitEntries t'.entries).2 ⟨i, hi'⟩)).1
    generalize (splitEntries t.entries).2.get ⟨i, hi⟩ = e at hkey hmem ⊢
    generalize (splitEntries t'.entries).2.get ⟨i, hi'⟩ = e' at hkey hmem' ⊢
    obtain ⟨k, v⟩ := e
    obtain ⟨k', v'⟩ := e'
    obtain rfl : k = k' := hkey
    have hscalar := isScalar_of_place (h.ne_bot _ hmem)
    rw [hf k hscalar, hg k hscalar]
    exact .entry k (hfg k v v' hmem hmem')
  have hparts : ∀ {t : Table}, t.metatable = none → t.parts =
      (splitEntries t.entries).1.map .positional ++ (splitEntries t.entries).2.map fun e => .entry e.1 e.2 := by
    intro t ht
    simp [Table.parts, ht]
  rw [hparts ht, hparts ht', List.map_append, List.map_append, List.map_map, List.map_map, List.map_map, List.map_map]
  refine List.rel_append ?_ ?_
  · rw [List.forall₂_map_left_iff, List.forall₂_map_right_iff]
    exact hsequence.imp fun _ _ => .positional
  · rw [List.forall₂_map_left_iff, List.forall₂_map_right_iff]
    exact hkeyed

theorem alike_outline (maxDepth : Option Nat) (h : Equal store store' v v') : ∀ (room : Nat) {path path' : List Nat},
    path.length = path'.length → Below store path v → Below store' path' v' →
    Outline.Alike (outline maxDepth store room path v) (outline maxDepth store' room path' v') := by
  induction h with
  | @leaf v h =>
    intro room path path' _ _ _
    cases v with
    | ref r =>
      rw [outline_sign (.inl (h r rfl)), outline_sign (.inl (h r rfl))]
      exact alike_sign (h r rfl)
    | _ =>
      rw [outline_scalar rfl, outline_scalar rfl]
      exact alike_scalar _
  | @table r r' hr hr' hmeta hmeta' hordinary hordinary' hkeys hvalues ih =>
    intro room path path' hlength hin hin'
    have hequal : Equal store store' (.ref r) (.ref r') :=
      .table hr hr' hmeta hmeta' hordinary hordinary' hkeys hvalues
    have hpath := hin.notMem hr hequal.acc
    have hpath' := hin'.notMem hr' hequal.symm.acc
    by_cases hdeep : (∃ d ∈ maxDepth, d ≤ path.length) ∨ room = 0
    · rw [outline_elided hr hpath hdeep, outline_elided hr' hpath' (hlength ▸ hdeep)]
      exact alike_elided hr hr'
    · obtain ⟨hd, hroom⟩ := not_or.1 hdeep
      have hlt : ∀ d ∈ maxDepth, path.length < d := fun d hm => Nat.lt_of_not_le fun hle => hd ⟨d, hm, hle⟩
      obtain ⟨n, rfl⟩ := Nat.exists_eq_succ_of_ne_zero hroom
      rw [outline_table hr hpath hlt, outline_table hr' hpath' (hlength ▸ hlt)]
      refine alike_table hr hr' (forall₂_parts hmeta hmeta' hordinary hordinary' hkeys (fun k v v' hv hv' => ?_)
        (fun _ => outline_scalar) fun _ => outline_scalar)
      exact ih k v v' hv hv' n (by simp [hlength]) (hin.cons hr hv) (hin'.cons hr' hv')

/-! ## Texts of equal values -/

/-- The rank of an object that is no table depends on such objects only. -/
theorem rank_eq_of_filter_eq {rs rs' : List Ref} {r : Ref} (hr : r.kind ≠ .table)
    (h : (rs.filter fun s => s.kind != .table) = rs'.filter fun s => s.kind != .table) : rank rs r = rank rs' r := by
  have hkind : ∀ rs : List Ref, (rs.filter fun s => s.kind == r.kind) =
      (rs.filter fun s => s.kind != .table).filter fun s => s.kind == r.kind := by
    intro rs
    rw [List.filter_filter]
    refine List.filter_congr fun s _ => ?_
    by_cases hs : s.kind = r.kind <;> simp [hs, hr]
  rw [rank, rank, filter_eraseDups, filter_eraseDups, hkind rs, hkind rs', h]

/-- Equal values are shown by the same text. -/
theorem inspect_eq_of_equal (h : Equal store store' v v') (layout : Layout) :
    inspect layout store v = inspect layout store' v' := by
  have hinside : ∀ store v, Below store [] v := fun _ _ _ h => absurd h List.not_mem_nil
  have halike := alike_outline layout.maxDepth h deepest rfl (hinside store v) (hinside store' v')
  rw [inspect_eq, inspect_eq]
  congr 1
  exact halike.text layout (fun r hr => rank_eq_of_filter_eq hr halike.refs) 0

/-- The entries of a table with keys of all kinds. -/
def mixedEntries (inner : Value) : List (Value × Value) :=
  [(.bool true, inner), (.text "k", .ref ⟨.function, 3⟩), (.int 2, .nil),
    (.float ⟨0x3FF8000000000000⟩, .ref ⟨.function, 5⟩), (.int 1, .text "a")]

/-- A table with an inner one, the object `inner`, and both with their entries in the same order or reversed. -/
def mixed (reorder : List (Value × Value) → List (Value × Value)) (inner : Nat) : Store := fun id =>
  if id = 0 then ⟨reorder (mixedEntries (.ref ⟨.table, inner⟩)), none⟩ else ⟨reorder (mixedEntries (.bool false)), none⟩

theorem equal_mixed : Equal (mixed id 1) (mixed List.reverse 2) (.ref ⟨.table, 0⟩) (.ref ⟨.table, 0⟩) := by
  have hentries : ∀ {v v'}, Equal (mixed id 1) (mixed List.reverse 2) v v' →
      List.Forall₂ (fun e e' => e.1 = e'.1 ∧ Equal (mixed id 1) (mixed List.reverse 2) e.2 e'.2) (mixedEntries v)
        (mixedEntries v') := by
    intro v v' h
    simp only [mixedEntries, List.forall₂_cons, List.forall₂_nil_left_iff, true_and, and_true]
    refine ⟨h, ?_, ?_, ?_, ?_⟩ <;> exact .leaf (by simp)
  have hinner : Equal (mixed id 1) (mixed List.reverse 2) (.ref ⟨.table, 1⟩) (.ref ⟨.table, 2⟩) :=
    .of_perm rfl rfl rfl rfl (by decide +kernel) (by decide +kernel) (List.reverse_perm _).symm
      (hentries (.leaf (by simp)))
  exact .of_perm rfl rfl rfl rfl (by decide +kernel) (by decide +kernel) (List.reverse_perm _).symm (hentries hinner)

theorem inspect_mixed_reversed : Equal (mixed id 1) (mixed List.reverse 2) (.ref ⟨.table, 0⟩) (.ref ⟨.table, 0⟩) ∧
    inspect {} (mixed id 1) (.ref ⟨.table, 0⟩) = inspect {} (mixed List.reverse 2) (.ref ⟨.table, 0⟩) :=
  ⟨equal_mixed, inspect_eq_of_equal equal_mixed {}⟩

end Scratchpad.Inspect
