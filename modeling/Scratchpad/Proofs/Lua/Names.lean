import Scratchpad.Proofs.Lua.Table

/-!
# Names in tables

The entries whose keys are strings all stand in the list of a table, and rearranging leaves them there. Main statement:
whatever else a table holds, a name with a value keeps it when another key is set (`get_set_name_of_ne`).
-/

namespace Scratchpad.Lua.Table

variable {t : Table} {es : List (Value × Value)} {k v : Value} {s : Bytes}

/-! ## The entries of a table -/

theorem get_name (t : Table) (s : Bytes) : t.get (.str s) = lookup (.str s) t.others := rfl

theorem entries_eq (t : Table) : t.entries =
    t.itemEntries.filter (fun e => !e.2.isNil) ++ t.others.filter fun e => !e.2.isNil :=
  List.filter_append t.itemEntries t.others

/-- The key of an item is no string. -/
theorem ne_name_of_mem_itemEntries {e : Value × Value} (he : e ∈ t.itemEntries) (s : Bytes) : e.1 ≠ .str s := by
  obtain ⟨i, -, rfl⟩ := mem_itemEntries_iff.1 he
  simp [Value.ofNat]

/-- The entries that have a value give for a name what all of them give, if that is a value. -/
theorem lookup_filter_value (h : lookup (.str s) es ≠ .nil) :
    lookup (.str s) (es.filter fun e => !e.2.isNil) = lookup (.str s) es := by
  induction es with
  | nil => rfl
  | cons a es ih =>
    rw [lookup] at h
    rw [List.filter_cons]
    by_cases ha : a.1 = .str s
    · rw [if_pos ha] at h
      rw [if_pos ((isNil_eq_false_iff a.2).2 h), lookup, lookup, if_pos ha, if_pos ha]
    · rw [if_neg ha] at h
      by_cases hnil : (!a.2.isNil) = true
      · rw [if_pos hnil, lookup, lookup, if_neg ha, if_neg ha, ih h]
      · rw [if_neg hnil, lookup, if_neg ha, ih h]

theorem lookup_entries_name (h : t.get (.str s) ≠ .nil) :
    lookup (.str s) t.entries = t.get (.str s) := by
  rw [entries_eq, lookup_append _ _ fun e he => ne_name_of_mem_itemEntries (List.mem_filter.1 he).1 s]
  exact lookup_filter_value h

/-! ## Setting an entry -/

/-- An entry of another key behind them does not change what entries give. -/
theorem lookup_concat_of_ne {k' : Value} (h : k' ≠ k) (es : List (Value × Value)) :
    lookup k' (es ++ [(k, v)]) = lookup k' es := by
  induction es with
  | nil => rw [List.nil_append, lookup.eq_2, if_neg (Ne.symm h)]
  | cons a es ih => rw [List.cons_append, lookup, lookup, ih]

/-- The list of a rearranged table gives for a name what the entries give. -/
theorem get_arrange_name (size : Nat) (metatable : Option Nat) (es : List (Value × Value)) (s : Bytes) :
    (arrange size metatable es).get (.str s) = lookup (.str s) es := by
  rw [get_name, arrange_eq]
  refine lookup_filter fun e _ he => ?_
  rw [belongs, he]
  rfl

/-- The other names that have a value keep it. -/
theorem get_set_name_of_ne (h : t.get (.str s) ≠ .nil) (hne : .str s ≠ k.toKey) :
    (t.set k v).get (.str s) = t.get (.str s) := by
  have hsets : Sets t k.toKey v (t.set k v) := sets_setKey t k.toKey v
  generalize t.set k v = t' at hsets
  cases hsets with
  | item _ => rfl
  | replaced _ hothers => rw [get_name, (replace?_eq_some hothers).1, if_neg hne, get_name]
  | absent _ _ _ => rfl
  | added _ _ => rw [get_name, lookup_concat_of_ne hne, get_name]
  | rearranged _ _ => rw [rearrange, get_arrange_name, lookup_concat_of_ne hne, lookup_entries_name h]

end Scratchpad.Lua.Table
