import Mathlib.Order.Bounds.Basic
import Scratchpad.Proofs.Inspect.KeyOrder

/-!
# How a table is taken apart

`IsSplit` says what the parts of a table are, without saying how they are found: the sequence is as long as the keys
1, 2, … last, each entry is in one of the parts, and the entries with keys stand in the order of their keys, those whose
keys have the same place as they were found. There is one such pair of parts at most (`IsSplit.unique`): the sequence
has its length from the keys and its values from the entries, and a list that is sorted by places is known by what it
has at each place (`eq_of_sorted_of_filter_eq`). Main statement: it is what `splitEntries` gives
(`splitEntries_eq_iff`).
-/

namespace Scratchpad.Inspect

variable {entries keyed keyed' : List (Value × Value)} {values values' : List Value}

/-- The values as entries with the keys 1, 2, …. -/
def numbered (values : List Value) : List (Value × Value) :=
  values.mapIdx fun i v => (.int (i + 1), v)

/-- The parts of a table with the entries `entries`: the values of the keys 1, 2, …, and the entries with keys. -/
structure IsSplit (entries : List (Value × Value)) (values : List Value) (keyed : List (Value × Value)) : Prop where
  greatest : IsGreatest {n : Nat | ∀ i : Nat, 1 ≤ i → i ≤ n → Value.int i ∈ entries.map Prod.fst} values.length
  perm : (numbered values ++ keyed).Perm entries
  outside : ∀ i : Int, Value.int i ∈ keyed.map Prod.fst → i < 1 ∨ values.length + 1 < i
  sorted : keyed.Pairwise fun e f => e.1.sortPlace ≤ f.1.sortPlace
  stable : ∀ p, (keyed.filter fun e => e.1.sortPlace = p) =
    (unsorted entries values.length).filter fun e => e.1.sortPlace = p

/-! ## Numbered values -/

theorem mem_numbered_iff {k v : Value} :
    (k, v) ∈ numbered values ↔ ∃ i : Nat, values[i]? = some v ∧ k = .int (i + 1) := by
  simp only [numbered, List.mem_mapIdx, Prod.mk.injEq]
  constructor
  · rintro ⟨i, hi, rfl, rfl⟩
    exact ⟨i, List.getElem?_eq_getElem hi, rfl⟩
  · rintro ⟨i, hget, rfl⟩
    obtain ⟨hi, rfl⟩ := List.getElem?_eq_some_iff.1 hget
    exact ⟨i, hi, rfl, rfl⟩

theorem keys_numbered (values : List Value) :
    (numbered values).map Prod.fst = (List.range values.length).map fun i : Nat => Value.int (i + 1) := by
  refine List.ext_getElem ?_ fun i hi hi' => ?_ <;> simp [numbered]

theorem nodup_keys_numbered (values : List Value) : ((numbered values).map Prod.fst).Nodup := by
  rw [keys_numbered]
  exact nodup_indices values.length

/-! ## What `splitEntries` gives -/

/-- No key of the sequence, and not the one behind it, is among the keys of the other entries. -/
theorem keyed_outside (h : (entries.map Prod.fst).Nodup) (i : Int)
    (hi : Value.int i ∈ (splitEntries entries).2.map Prod.fst) : i < 1 ∨ (splitEntries entries).1.length + 1 < i := by
  obtain ⟨hmem, hplace⟩ := mem_keys_keyed_iff.1 hi
  by_contra hinside
  have hindex : (Value.int i).index? = some i.toNat :=
    index?_eq_some_iff.2 ⟨by omega, congrArg Value.int (by omega)⟩
  have hlt := hplace _ hindex
  have hnext : i = (splitEntries entries).1.length + 1 := by omega
  exact next_notMem_keys h (hnext ▸ hmem)

theorem nodup_numbered_append_keyed (h : (entries.map Prod.fst).Nodup) :
    (numbered (splitEntries entries).1 ++ (splitEntries entries).2).Nodup := by
  refine List.Nodup.of_map Prod.fst ?_
  rw [List.map_append, List.nodup_append]
  refine ⟨nodup_keys_numbered _, nodup_keyed h, fun k hk k' hk' heq => ?_⟩
  rw [keys_numbered] at hk
  obtain ⟨i, hi, rfl⟩ := List.mem_map.1 hk
  have hlt := List.mem_range.1 hi
  have houtside := keyed_outside h (i + 1) (heq ▸ hk')
  omega

/-- Taking a table apart loses no entry and makes none. -/
theorem numbered_append_keyed_perm (h : (entries.map Prod.fst).Nodup) :
    (numbered (splitEntries entries).1 ++ (splitEntries entries).2).Perm entries := by
  refine (List.perm_ext_iff_of_nodup (nodup_numbered_append_keyed h) h.of_map).2 fun ⟨k, v⟩ => ?_
  rw [List.mem_append, mem_numbered_iff, ← mem_entries_iff h]

/-- The sequence goes on as long as the next key is there. -/
theorem isGreatest_length (h : (entries.map Prod.fst).Nodup) :
    IsGreatest {n : Nat | ∀ i : Nat, 1 ≤ i → i ≤ n → Value.int i ∈ entries.map Prod.fst}
      (splitEntries entries).1.length := by
  constructor
  · intro i hpos hle
    obtain ⟨j, rfl⟩ : ∃ j, i = j + 1 := ⟨i - 1, by omega⟩
    have hmem := getElem_sequence_mem h (i := j) (by omega)
    exact List.mem_map.2 ⟨_, hmem, by simp⟩
  · intro n hn
    by_contra hlt
    have hnext := hn ((splitEntries entries).1.length + 1) (by omega) (by omega)
    exact next_notMem_keys h (by simpa using hnext)

theorem isSplit_splitEntries (hkeys : ∀ e ∈ entries, e.1.isKey = true) (h : (entries.map Prod.fst).Nodup) :
    IsSplit entries (splitEntries entries).1 (splitEntries entries).2 where
  greatest := isGreatest_length h
  perm := numbered_append_keyed_perm h
  outside := keyed_outside h
  sorted := pairwise_keyed hkeys
  stable p := by
    rw [keyed_eq_mergeSort hkeys]
    exact filter_mergeSort_by (fun e : Value × Value => e.1.sortPlace) _ p

/-! ## There is only one way -/

section Sorted

variable {α β : Type} [LinearOrder β] {f : α → β} {l l' : List α}

theorem mem_of_filter_eq (h : ∀ p, (l.filter fun a => f a = p) = l'.filter fun a => f a = p) {a : α} (ha : a ∈ l) :
    a ∈ l' := by
  have hfilter : a ∈ l.filter fun b => f b = f a := List.mem_filter.2 ⟨ha, decide_eq_true rfl⟩
  rw [h] at hfilter
  exact (List.mem_filter.1 hfilter).1

theorem le_of_mem_cons {a b : α} (hal : ∀ c ∈ l, f a ≤ f c) (hb : b ∈ a :: l) : f a ≤ f b := by
  rcases List.mem_cons.1 hb with rfl | hb
  · exact le_rfl
  · exact hal b hb

/-- A sorted list is known by its elements at each place, in their order. -/
theorem eq_of_sorted_of_filter_eq (hl : l.Pairwise fun a b => f a ≤ f b) (hl' : l'.Pairwise fun a b => f a ≤ f b)
    (h : ∀ p, (l.filter fun a => f a = p) = l'.filter fun a => f a = p) : l = l' := by
  induction l generalizing l' with
  | nil =>
    cases l' with
    | nil => rfl
    | cons b l' => cases mem_of_filter_eq (fun p => (h p).symm) List.mem_cons_self
  | cons a l ih =>
    cases l' with
    | nil => cases mem_of_filter_eq h List.mem_cons_self
    | cons b l' =>
      obtain ⟨hal, htail⟩ := List.pairwise_cons.1 hl
      obtain ⟨hbl, htail'⟩ := List.pairwise_cons.1 hl'
      -- The least place is that of both heads, so the heads are the first elements with it.
      have hab : f a ≤ f b := le_of_mem_cons hal (mem_of_filter_eq (fun p => (h p).symm) List.mem_cons_self)
      have hba : f b ≤ f a := le_of_mem_cons hbl (mem_of_filter_eq h List.mem_cons_self)
      have hheads := h (f b)
      simp only [List.filter_cons, le_antisymm hab hba, decide_true, if_true] at hheads
      obtain ⟨rfl, -⟩ := List.cons.inj hheads
      refine congrArg (a :: ·) (ih htail htail' fun p => ?_)
      have hp := h p
      by_cases hap : f a = p
      · simpa [hap] using hp
      · simpa [hap] using hp

end Sorted

namespace IsSplit

theorem getElem_mem (h : IsSplit entries values keyed) {i : Nat} (hi : i < values.length) :
    (Value.int (i + 1), values[i]) ∈ entries :=
  h.perm.mem_iff.1 (List.mem_append_left _ (mem_numbered_iff.2 ⟨i, List.getElem?_eq_getElem hi, rfl⟩))

theorem unique (hnodup : (entries.map Prod.fst).Nodup) (h : IsSplit entries values keyed)
    (h' : IsSplit entries values' keyed') : values = values' ∧ keyed = keyed' := by
  have hlength : values.length = values'.length := h.greatest.unique h'.greatest
  constructor
  · exact List.ext_getElem hlength fun i hi hi' => eq_of_mem_entries hnodup (h.getElem_mem hi) (h'.getElem_mem hi')
  · refine eq_of_sorted_of_filter_eq (f := fun e : Value × Value => e.1.sortPlace) h.sorted h'.sorted fun p => ?_
    have hp := h.stable p
    rw [hlength] at hp
    exact hp.trans (h'.stable p).symm

end IsSplit

/-- A table with distinct keys has one pair of parts, and `splitEntries` gives it. -/
theorem splitEntries_eq_iff (hkeys : ∀ e ∈ entries, e.1.isKey = true) (hnodup : (entries.map Prod.fst).Nodup) :
    splitEntries entries = (values, keyed) ↔ IsSplit entries values keyed := by
  have hsplit := isSplit_splitEntries hkeys hnodup
  constructor
  · intro heq
    rwa [heq] at hsplit
  · intro h
    obtain ⟨hvalues, hkeyed⟩ := hsplit.unique hnodup h
    exact Prod.ext hvalues hkeyed

/-- Entries with keys of all kinds: floating point numbers and a truth value that look like indices, an index behind a
gap, a text and bytes that read the same, and a reference. -/
def jumbled : List (Value × Value) :=
  [(.ref ⟨.function, 7⟩, .nil), (.bool true, .int 10), (.int 4, .int 11), (.int 2, .text "b"),
    (.float ⟨0x3FF0000000000000⟩, .int 12), (.bytes [0x6B], .int 13), (.float ⟨0x4010000000000000⟩, .int 14),
    (.int 1, .text "a"), (.text "k", .int 15)]

/-- Those of them that have no place in the sequence, sorted. -/
def jumbledKeyed : List (Value × Value) :=
  [(.float ⟨0x3FF0000000000000⟩, .int 12), (.float ⟨0x4010000000000000⟩, .int 14), (.int 4, .int 11),
    (.bytes [0x6B], .int 13), (.text "k", .int 15), (.bool true, .int 10), (.ref ⟨.function, 7⟩, .nil)]

theorem splitEntries_jumbled : splitEntries jumbled = ([.text "a", .text "b"], jumbledKeyed) := by
  have hvalues : (splitEntries jumbled).1 = [.text "a", .text "b"] := by decide +kernel
  have hunsorted : unsorted jumbled 2 = [(.ref ⟨.function, 7⟩, .nil), (.bool true, .int 10),
      (.float ⟨0x3FF0000000000000⟩, .int 12), (.bytes [0x6B], .int 13), (.float ⟨0x4010000000000000⟩, .int 14),
      (.text "k", .int 15), (.int 4, .int 11)] := by decide +kernel
  have hstrings : (Value.text "k").keyLt (.bytes [0x6B]) = false := by decide +kernel
  refine Prod.ext hvalues ?_
  rw [keyed_eq, hvalues, List.length_cons, List.length_singleton, hunsorted]
  simp +decide [List.mergeSort, List.MergeSort.Internal.splitInTwo, jumbledKeyed, hstrings]

theorem isSplit_jumbled : (∀ e ∈ jumbled, e.1.isKey = true) ∧ (jumbled.map Prod.fst).Nodup ∧
    IsSplit jumbled [.text "a", .text "b"] jumbledKeyed := by
  have hkeys : ∀ e ∈ jumbled, e.1.isKey = true := by decide
  have hnodup : (jumbled.map Prod.fst).Nodup := by decide
  exact ⟨hkeys, hnodup, (splitEntries_eq_iff hkeys hnodup).1 splitEntries_jumbled⟩

end Scratchpad.Inspect
