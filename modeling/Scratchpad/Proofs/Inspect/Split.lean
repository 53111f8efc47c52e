import Mathlib.Data.List.Nodup
import Mathlib.Data.List.Perm.Subperm
import Scratchpad.Inspect.Value

/-!
# The parts of a table

`splitEntries` loses no entry: if the keys are distinct, each entry is either a value of the sequence, whose place is
its key, or one of the entries with keys (`mem_entries_iff`). The sequence is as long as it can be (`next_notMem_keys`).
-/

namespace Scratchpad.Inspect

variable {entries : List (Value × Value)} {k v : Value}

theorem index?_eq_some_iff {n : Nat} : k.index? = some n ↔ 0 < n ∧ k = .int n := by
  cases k with
  | int i =>
    simp only [Value.index?, Value.int.injEq]
    split <;> simp <;> omega
  | _ => simp [Value.index?]

/-- Distinct keys have one value each. -/
theorem eq_of_mem_entries (h : (entries.map Prod.fst).Nodup) {w : Value} (hv : (k, v) ∈ entries)
    (hw : (k, w) ∈ entries) : v = w := by
  induction entries with
  | nil => cases hv
  | cons e es ih =>
    rw [List.map_cons, List.nodup_cons] at h
    have hkey : ∀ x, (k, x) ∈ es → e.1 ≠ k := fun x hx he => h.1 (he ▸ List.mem_map.2 ⟨_, hx, rfl⟩)
    rcases List.mem_cons.1 hv with rfl | hv'
    · rcases List.mem_cons.1 hw with he | hw'
      · exact (congrArg Prod.snd he).symm
      · exact absurd rfl (hkey w hw')
    · rcases List.mem_cons.1 hw with rfl | hw'
      · exact absurd rfl (hkey v hv')
      · exact ih h.2 hv' hw'

theorem entryAt?_eq_some_iff (h : (entries.map Prod.fst).Nodup) {n : Nat} (h0 : 0 < n) :
    entryAt? entries n = some v ↔ (.int n, v) ∈ entries := by
  constructor
  · intro hv
    obtain ⟨e, he, rfl⟩ := Option.map_eq_some_iff.1 hv
    have hindex := List.find?_some he
    rw [(index?_eq_some_iff.1 (of_decide_eq_true hindex)).2.symm]
    exact List.mem_of_find?_eq_some he
  · intro hv
    have hsome : (entries.find? fun e => e.1.index? = some n).isSome = true :=
      List.find?_isSome.2 ⟨_, hv, decide_eq_true (index?_eq_some_iff.2 ⟨h0, rfl⟩)⟩
    obtain ⟨e, he⟩ := Option.isSome_iff_exists.1 hsome
    have hindex := List.find?_some he
    have hkey : e.1 = .int n := (index?_eq_some_iff.1 (of_decide_eq_true hindex)).2
    have hmem : (.int n, e.2) ∈ entries := hkey ▸ List.mem_of_find?_eq_some he
    rw [entryAt?, he, Option.map_some, eq_of_mem_entries h hmem hv]

theorem getElem?_sequenceFrom {n fuel i : Nat} (h : i < (sequenceFrom entries n fuel).length) :
    (sequenceFrom entries n fuel)[i]? = entryAt? entries (n + i) := by
  induction fuel generalizing n i with
  | zero => exact absurd h (Nat.not_lt_zero i)
  | succ fuel ih =>
    unfold sequenceFrom at h ⊢
    split
    · rename_i hnone
      rw [hnone] at h
      exact absurd h (Nat.not_lt_zero i)
    · rename_i w hw
      rw [hw] at h
      cases i with
      | zero => simp [hw]
      | succ i =>
        rw [List.getElem?_cons_succ, ih (Nat.lt_of_succ_lt_succ h), Nat.add_right_comm, Nat.add_assoc]

/-- The values of the sequence are those of the keys from 1 on. -/
theorem getElem?_splitEntries {i : Nat} (h : i < (splitEntries entries).1.length) :
    (splitEntries entries).1[i]? = entryAt? entries (i + 1) := by
  rw [Nat.add_comm]
  exact getElem?_sequenceFrom h

theorem exists_entry_of_mem_sequence (h : v ∈ (splitEntries entries).1) : ∃ e ∈ entries, e.2 = v := by
  obtain ⟨i, hi, rfl⟩ := List.mem_iff_getElem.1 h
  have hv := getElem?_splitEntries hi
  rw [List.getElem?_eq_getElem hi] at hv
  obtain ⟨e, he, heq⟩ := Option.map_eq_some_iff.1 hv.symm
  exact ⟨e, List.mem_of_find?_eq_some he, heq⟩

/-- The entries that have no place in a sequence of `n` values, before they are sorted: those without a positive
integer as their key, then the others. -/
def unsorted (entries : List (Value × Value)) (n : Nat) : List (Value × Value) :=
  (entries.filter fun e => e.1.index?.isNone) ++ entries.filter fun e => e.1.index?.any fun i => n < i

theorem mem_unsorted_iff {n : Nat} {e : Value × Value} :
    e ∈ unsorted entries n ↔ e ∈ entries ∧ ∀ i, e.1.index? = some i → n < i := by
  simp only [unsorted, List.mem_append, List.mem_filter]
  rw [← and_or_left]
  refine and_congr_right fun _ => ?_
  cases e.1.index? <;> simp

theorem keyed_eq (entries : List (Value × Value)) : (splitEntries entries).2 =
    (unsorted entries (splitEntries entries).1.length).mergeSort fun e f => !f.1.keyLt e.1 :=
  rfl

/-- The entries with keys are those that have no place in the sequence. -/
theorem mem_keyed_iff {e : Value × Value} : e ∈ (splitEntries entries).2 ↔
    e ∈ entries ∧ ∀ n, e.1.index? = some n → (splitEntries entries).1.length < n := by
  rw [keyed_eq, List.mem_mergeSort, mem_unsorted_iff]

/-- A table without equal keys has the entries that its parts have. -/
theorem mem_entries_iff (h : (entries.map Prod.fst).Nodup) : (k, v) ∈ entries ↔
    (∃ i : Nat, (splitEntries entries).1[i]? = some v ∧ k = .int (i + 1)) ∨ (k, v) ∈ (splitEntries entries).2 := by
  constructor
  · intro hv
    by_cases hplace : ∀ n, k.index? = some n → (splitEntries entries).1.length < n
    · exact .inr (mem_keyed_iff.2 ⟨hv, hplace⟩)
    · obtain ⟨n, hn⟩ := Classical.not_forall.1 hplace
      obtain ⟨hindex, hlt⟩ := Classical.not_imp.1 hn
      obtain ⟨h0, rfl⟩ := index?_eq_some_iff.1 hindex
      obtain ⟨i, rfl⟩ := Nat.exists_eq_succ_of_ne_zero (Nat.pos_iff_ne_zero.1 h0)
      exact .inl ⟨i, (getElem?_splitEntries (by omega)).trans ((entryAt?_eq_some_iff h h0).2 hv), rfl⟩
  · rintro (⟨i, hi, rfl⟩ | hkeyed)
    · have hlt : i < (splitEntries entries).1.length := (List.getElem?_eq_some_iff.1 hi).1
      exact (entryAt?_eq_some_iff h (Nat.succ_pos i)).1 ((getElem?_splitEntries hlt).symm.trans hi)
    · exact (mem_keyed_iff.1 hkeyed).1

/-! ## The end of the sequence -/

theorem length_sequenceFrom_le (n fuel : Nat) : (sequenceFrom entries n fuel).length ≤ fuel := by
  induction fuel generalizing n with
  | zero => exact Nat.le_refl 0
  | succ fuel ih =>
    rw [sequenceFrom]
    split
    · exact Nat.zero_le _
    · exact Nat.succ_le_succ (ih (n + 1))

/-- Where the sequence ends before its bound, the next key is missing. -/
theorem entryAt?_length_sequenceFrom {n fuel : Nat} (h : (sequenceFrom entries n fuel).length < fuel) :
    entryAt? entries (n + (sequenceFrom entries n fuel).length) = none := by
  induction fuel generalizing n with
  | zero => exact absurd h (Nat.not_lt_zero _)
  | succ fuel ih =>
    rw [sequenceFrom] at h ⊢
    split
    · assumption
    · rename_i w hw
      rw [hw] at h
      have hrest := ih (Nat.lt_of_succ_lt_succ h)
      rwa [Nat.add_right_comm, Nat.add_assoc] at hrest

theorem getElem_sequence_mem (h : (entries.map Prod.fst).Nodup) {i : Nat} (hi : i < (splitEntries entries).1.length) :
    (Value.int (i + 1), (splitEntries entries).1[i]) ∈ entries :=
  (entryAt?_eq_some_iff h (Nat.succ_pos i)).1 ((getElem?_splitEntries hi).symm.trans (List.getElem?_eq_getElem hi))

theorem nodup_indices (n : Nat) : ((List.range n).map fun i : Nat => Value.int (i + 1)).Nodup :=
  List.nodup_range.map fun i j hij => by simpa [Int.natCast_inj] using hij

/-- The key behind the sequence is missing: there are not enough entries for the bound to be reached. -/
theorem next_notMem_keys (h : (entries.map Prod.fst).Nodup) :
    Value.int ((splitEntries entries).1.length + 1) ∉ entries.map Prod.fst := by
  intro hmem
  have hle : (splitEntries entries).1.length ≤ entries.length := length_sequenceFrom_le 1 entries.length
  rcases Nat.lt_or_eq_of_le hle with hlt | heq
  · obtain ⟨⟨k, v⟩, hkv, hk⟩ := List.mem_map.1 hmem
    obtain rfl : k = _ := hk
    have hnone : entryAt? entries (1 + (splitEntries entries).1.length) = none := entryAt?_length_sequenceFrom hlt
    rw [Nat.add_comm, (entryAt?_eq_some_iff h (Nat.succ_pos _)).2 hkv] at hnone
    cases hnone
  · have hkeys : (List.range (entries.length + 1)).map (fun i : Nat => Value.int (i + 1)) ⊆ entries.map Prod.fst := by
      intro k hk
      obtain ⟨i, hi, rfl⟩ := List.mem_map.1 hk
      rcases Nat.lt_or_eq_of_le (Nat.le_of_lt_succ (List.mem_range.1 hi)) with hi | rfl
      · exact List.mem_map.2 ⟨_, getElem_sequence_mem h (heq ▸ hi), rfl⟩
      · exact heq ▸ hmem
    have hlength : entries.length + 1 ≤ entries.length := by
      simpa using (List.Nodup.subperm (nodup_indices _) hkeys).length_le
    omega

theorem unsorted_perm (entries : List (Value × Value)) (n : Nat) :
    (unsorted entries n).Perm (entries.filter fun e => e.1.index?.all fun i => decide (n < i)) := by
  let rest := entries.filter fun e => e.1.index?.all fun i => decide (n < i)
  have hothers : (entries.filter fun e => e.1.index?.isNone) = rest.filter fun e => e.1.index?.isNone := by
    rw [List.filter_filter]
    refine List.filter_congr fun e _ => ?_
    cases e.1.index? <;> simp
  have hindexed : (entries.filter fun e => e.1.index?.any fun i => decide (n < i)) =
      rest.filter fun e => !e.1.index?.isNone := by
    rw [List.filter_filter]
    refine List.filter_congr fun e _ => ?_
    cases e.1.index? <;> simp
  rw [unsorted, hothers, hindexed]
  exact List.filter_append_perm (fun e => e.1.index?.isNone) rest

theorem nodup_keyed (h : (entries.map Prod.fst).Nodup) : ((splitEntries entries).2.map Prod.fst).Nodup :=
  (((List.mergeSort_perm _ _).trans (unsorted_perm entries _)).map Prod.fst).nodup_iff.2
    (h.sublist (List.filter_sublist.map Prod.fst))

theorem mem_keys_keyed_iff : k ∈ (splitEntries entries).2.map Prod.fst ↔
    k ∈ entries.map Prod.fst ∧ ∀ n, k.index? = some n → (splitEntries entries).1.length < n := by
  simp only [List.mem_map]
  constructor
  · rintro ⟨e, he, rfl⟩
    exact ⟨⟨e, (mem_keyed_iff.1 he).1, rfl⟩, (mem_keyed_iff.1 he).2⟩
  · rintro ⟨⟨e, he, rfl⟩, hplace⟩
    exact ⟨e, mem_keyed_iff.2 ⟨he, hplace⟩, rfl⟩

end Scratchpad.Inspect
