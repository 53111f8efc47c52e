import Scratchpad.Lua.Table

/-!
# Tables are maps

Whatever a table is arranged like, it gives for a key what was last set for it. What makes that so is that no key stands
in two places: the entries outside the sequence part have different keys, and none that belongs into it (`Table.Valid`).
Main statements: `updates_setKey`, and with it `Valid.set` and `get_set`.
-/

namespace Scratchpad.Lua.Table

/-! ## Lists of entries -/

section Entries

variable {es : List (Value × Value)} {k k' v : Value} {e : Value × Value}

/-- The entries have different keys. -/
def Distinct (es : List (Value × Value)) : Prop :=
  es.Pairwise fun a b => a.1 ≠ b.1

theorem lookup_of_mem (h : Distinct es) (he : e ∈ es) : lookup e.1 es = e.2 := by
  induction es with
  | nil => cases he
  | cons a es ih =>
    obtain ⟨ha, hes⟩ := List.pairwise_cons.1 h
    rw [lookup]
    rcases List.mem_cons.1 he with rfl | he
    · rw [if_pos rfl]
    · rw [if_neg (ha e he), ih hes he]

theorem lookup_of_absent (h : ∀ e ∈ es, e.1 ≠ k) : lookup k es = .nil := by
  induction es with
  | nil => rfl
  | cons a es ih =>
    rw [lookup, if_neg (h a List.mem_cons_self), ih fun e he => h e (List.mem_cons_of_mem a he)]

/-- A key that is looked up is there or not. -/
theorem lookup_cases (h : Distinct es) (k : Value) :
    (∃ v, (k, v) ∈ es ∧ lookup k es = v) ∨ (∀ e ∈ es, e.1 ≠ k) ∧ lookup k es = .nil := by
  by_cases hk : ∃ e ∈ es, e.1 = k
  · obtain ⟨e, he, rfl⟩ := hk
    exact .inl ⟨e.2, he, lookup_of_mem h he⟩
  · have habsent : ∀ e ∈ es, e.1 ≠ k := fun e he hek => hk ⟨e, he, hek⟩
    exact .inr ⟨habsent, lookup_of_absent habsent⟩

theorem lookup_append (es fs : List (Value × Value)) (h : ∀ e ∈ es, e.1 ≠ k) : lookup k (es ++ fs) = lookup k fs := by
  induction es with
  | nil => rfl
  | cons a es ih =>
    rw [List.cons_append, lookup, if_neg (h a List.mem_cons_self), ih fun e he => h e (List.mem_cons_of_mem a he)]

/-- Entries with other keys can be left out. -/
theorem lookup_filter {p : Value × Value → Bool} (h : ∀ e ∈ es, e.1 = k → p e = true) :
    lookup k (es.filter p) = lookup k es := by
  induction es with
  | nil => rfl
  | cons a es ih =>
    have hmore := ih fun e he => h e (List.mem_cons_of_mem a he)
    rw [List.filter_cons]
    by_cases hp : p a = true
    · rw [if_pos hp, lookup, lookup, hmore]
    · rw [if_neg hp, hmore, lookup, if_neg fun ha => hp (h a List.mem_cons_self ha)]

theorem Distinct.concat (h : Distinct es) (hk : ∀ e ∈ es, e.1 ≠ k) : Distinct (es ++ [(k, v)]) :=
  List.pairwise_append.2 ⟨h, List.pairwise_singleton _ _, fun a ha b hb => by
    rw [List.mem_singleton.1 hb]
    exact hk a ha⟩

theorem lookup_concat (h : Distinct es) (hk : ∀ e ∈ es, e.1 ≠ k) (v k' : Value) :
    lookup k' (es ++ [(k, v)]) = if k' = k then v else lookup k' es := by
  by_cases hkk : k' = k
  · subst hkk
    rw [lookup_append es _ hk, lookup, if_pos rfl, if_pos rfl]
  · rw [if_neg hkk]
    rcases lookup_cases h k' with ⟨w, hmem, hw⟩ | ⟨habsent, hnil⟩
    · rw [hw]
      exact lookup_of_mem (h.concat hk) (List.mem_append_left _ hmem)
    · rw [lookup_append es _ habsent, hnil, lookup, if_neg (Ne.symm hkk), lookup]

/-! ### Replacing -/

theorem replace?_eq_none (h : replace? k v es = none) : ∀ e ∈ es, e.1 ≠ k := by
  induction es with
  | nil => simp
  | cons a es ih =>
    rw [replace?] at h
    split at h
    · cases h
    · rename_i ha
      rw [Option.map_eq_none_iff] at h
      exact List.forall_mem_cons.2 ⟨ha, ih h⟩

/-- A replaced value stands for the key, the keys and the other values stay. -/
theorem replace?_eq_some {fs : List (Value × Value)} (h : replace? k v es = some fs) :
    (∀ k', lookup k' fs = if k' = k then v else lookup k' es) ∧ fs.map Prod.fst = es.map Prod.fst := by
  induction es generalizing fs with
  | nil => cases h
  | cons a es ih =>
    rw [replace?] at h
    split at h
    · rename_i ha
      subst ha
      obtain rfl := Option.some.inj h
      refine ⟨fun k' => ?_, rfl⟩
      rw [lookup, lookup]
      by_cases hk : a.1 = k'
      · rw [if_pos hk, if_pos hk.symm]
      · rw [if_neg hk, if_neg (Ne.symm hk), if_neg hk]
    · rename_i ha
      obtain ⟨gs, hgs, rfl⟩ := Option.map_eq_some_iff.1 h
      obtain ⟨hlookup, hkeys⟩ := ih hgs
      refine ⟨fun k' => ?_, by rw [List.map_cons, List.map_cons, hkeys]⟩
      rw [lookup, lookup, hlookup]
      by_cases hk : a.1 = k'
      · rw [if_pos hk, if_pos hk, if_neg fun e => ha (hk.trans e)]
      · rw [if_neg hk, if_neg hk]

theorem distinct_iff_map (es : List (Value × Value)) : Distinct es ↔ (es.map Prod.fst).Pairwise (· ≠ ·) :=
  List.pairwise_map.symm

end Entries

/-! ## Positive integers -/

theorem positive?_eq_some {k : Value} {n : Nat} (h : positive? k = some n) :
    ∃ i : Int64, k = .int i ∧ i.toInt = n ∧ 1 ≤ n ∧ n < 0x8000000000000000 := by
  unfold positive? at h
  split at h
  · rename_i i
    split at h
    · rename_i hi
      obtain rfl := Option.some.inj h
      have hle : 1 ≤ i.toInt := Int64.le_iff_toInt_le.1 hi
      have hlt := i.toInt_lt
      have hnat := i.toNat_toInt
      exact ⟨i, rfl, by omega, by omega, by omega⟩
    · cases h
  · cases h

theorem positive?_inj {k k' : Value} {n : Nat} (h : positive? k = some n) (h' : positive? k' = some n) : k = k' := by
  obtain ⟨i, rfl, hi, -, -⟩ := positive?_eq_some h
  obtain ⟨j, rfl, hj, -, -⟩ := positive?_eq_some h'
  rw [Int64.toInt_inj.1 (hi.trans hj.symm)]

theorem positive?_ofNat {n : Nat} (h1 : 1 ≤ n) (h : n < 0x8000000000000000) : positive? (.ofNat n) = some n := by
  have hint : (Int64.ofNat n).toInt = n := Int64.toInt_ofNat_of_lt h
  have hle : 1 ≤ Int64.ofNat n := by
    rw [Int64.le_iff_toInt_le, hint]
    exact Int.ofNat_le.2 h1
  rw [Value.ofNat, positive?, if_pos hle, ← Int64.toNat_toInt, hint, Int.toNat_natCast]

/-! ## Well-formed tables -/

/-- No key stands in two places. -/
structure Valid (t : Table) : Prop where
  distinct : Distinct t.others
  /-- No key of the sequence part is outside of it. -/
  apart : ∀ e ∈ t.others, t.itemIndex? e.1 = none
  /-- A position with a value is that of a key. -/
  inRange : ∀ i, t.items.getD i .nil ≠ .nil → i + 1 < 0x8000000000000000

section Valid

variable {t : Table} {k k' v : Value} {i j : Nat}

theorem valid_empty (metatable : Option Nat) : Valid { metatable } where
  distinct := .nil
  apart := by simp
  inRange := fun i hi => absurd (by simp) hi

theorem itemIndex?_eq_some_iff : t.itemIndex? k = some i ↔ positive? k = some (i + 1) ∧ i < t.items.size := by
  unfold itemIndex?
  rcases hk : positive? k with _ | n
  · simp
  · obtain ⟨-, -, -, h1, -⟩ := positive?_eq_some hk
    dsimp only
    split
    · simp only [Option.some.injEq]
      omega
    · simp only [Option.some.injEq, reduceCtorEq, false_iff]
      omega

theorem itemIndex?_inj (h : t.itemIndex? k = some i) (h' : t.itemIndex? k' = some i) : k = k' :=
  positive?_inj (itemIndex?_eq_some_iff.1 h).1 (itemIndex?_eq_some_iff.1 h').1

theorem getKey_of_item (h : t.itemIndex? k = some i) : t.getKey k = t.items.getD i .nil := by
  rw [getKey, h]

theorem getKey_of_other (h : t.itemIndex? k = none) : t.getKey k = lookup k t.others := by
  rw [getKey, h]

theorem getD_set! (items : Array Value) (hi : i < items.size) (v : Value) (j : Nat) :
    (items.set! i v).getD j .nil = if j = i then v else items.getD j .nil := by
  rw [Array.set!_eq_setIfInBounds, Array.getD_eq_getD_getElem?, Array.getD_eq_getD_getElem?,
    Array.getElem?_setIfInBounds, if_pos hi]
  by_cases hji : j = i
  · rw [if_pos hji.symm, if_pos hji]
    rfl
  · rw [if_neg (Ne.symm hji), if_neg hji]

/-- A table without entries gives nothing. -/
theorem getKey_empty {metatable : Option Nat} (k : Value) : getKey { metatable } k = .nil := by
  rcases hk : itemIndex? { metatable } k with _ | i
  · rw [getKey_of_other hk, lookup]
  · exact absurd (itemIndex?_eq_some_iff.1 hk).2 (Nat.not_lt_zero i)

/-! ### All entries of a table -/

/-- The positions of the sequence part as entries, those without a value too. -/
def itemEntries (t : Table) : List (Value × Value) :=
  t.items.toList.mapIdx fun i v => (Value.ofNat (i + 1), v)

theorem getElem_itemEntries (t : Table) (i : Nat) (hi : i < t.itemEntries.length) :
    t.itemEntries[i] = (.ofNat (i + 1), t.items.getD i .nil) := by
  have hsize : i < t.items.size := by simpa [itemEntries] using hi
  simp [itemEntries, Array.getD_eq_getD_getElem?, hsize]

theorem mem_itemEntries_iff {e : Value × Value} :
    e ∈ t.itemEntries ↔ ∃ i, i < t.items.size ∧ e = (.ofNat (i + 1), t.items.getD i .nil) := by
  have hlength : t.itemEntries.length = t.items.size := by simp [itemEntries]
  rw [List.mem_iff_getElem]
  constructor
  · rintro ⟨i, hi, rfl⟩
    exact ⟨i, hlength ▸ hi, t.getElem_itemEntries i hi⟩
  · rintro ⟨i, hi, rfl⟩
    exact ⟨i, hlength ▸ hi, t.getElem_itemEntries i (hlength ▸ hi)⟩

theorem isNil_eq_false_iff (v : Value) : (!v.isNil) = true ↔ v ≠ .nil := by
  cases v <;> simp [Value.isNil]

theorem mem_entries_iff {e : Value × Value} : e ∈ t.entries ↔
    e.2 ≠ .nil ∧ ((∃ i, i < t.items.size ∧ e = (.ofNat (i + 1), t.items.getD i .nil)) ∨ e ∈ t.others) := by
  rw [← mem_itemEntries_iff, and_comm, ← isNil_eq_false_iff, ← List.mem_append]
  exact List.mem_filter

/-- The key of a position with a value. -/
theorem positive?_of_getD (ht : t.Valid) (hi : t.items.getD i .nil ≠ .nil) :
    positive? (.ofNat (i + 1)) = some (i + 1) :=
  positive?_ofNat (Nat.le_add_left 1 i) (ht.inRange i hi)

theorem distinct_entries (ht : t.Valid) : Distinct t.entries := by
  have hitems : t.itemEntries.Pairwise fun a b => (!a.2.isNil) = true → (!b.2.isNil) = true → a.1 ≠ b.1 := by
    rw [List.pairwise_iff_getElem]
    intro i j hi hj hij hnil hnil' hkey
    rw [getElem_itemEntries, isNil_eq_false_iff] at hnil hnil'
    rw [getElem_itemEntries, getElem_itemEntries] at hkey
    have hpos := positive?_of_getD ht hnil
    rw [show Value.ofNat (i + 1) = Value.ofNat (j + 1) from hkey, positive?_of_getD ht hnil'] at hpos
    have := Option.some.inj hpos
    omega
  refine List.pairwise_filter.2 (List.pairwise_append.2 ⟨hitems, ht.distinct.imp fun h _ _ => h, ?_⟩)
  intro a ha b hb hnil _ hkey
  obtain ⟨i, hi, rfl⟩ := mem_itemEntries_iff.1 ha
  have hindex : t.itemIndex? b.1 = some i := by
    rw [← hkey]
    exact itemIndex?_eq_some_iff.2 ⟨positive?_of_getD ht ((isNil_eq_false_iff _).1 hnil), hi⟩
  rw [ht.apart b hb] at hindex
  cases hindex

/-- The entries give for a key what the table gives. -/
theorem lookup_entries (ht : t.Valid) (k : Value) : lookup k t.entries = t.getKey k := by
  rcases lookup_cases (distinct_entries ht) k with ⟨v, hmem, hv⟩ | ⟨habsent, hnil⟩
  · rw [hv]
    obtain ⟨hne, ⟨i, hi, he⟩ | hother⟩ := mem_entries_iff.1 hmem
    · obtain ⟨rfl, rfl⟩ := Prod.mk.inj he
      rw [getKey_of_item (itemIndex?_eq_some_iff.2 ⟨positive?_of_getD ht hne, hi⟩)]
    · rw [getKey_of_other (ht.apart _ hother)]
      exact (lookup_of_mem ht.distinct hother).symm
  · rw [hnil]
    rcases hk : t.itemIndex? k with _ | i
    · rw [getKey_of_other hk]
      rcases lookup_cases ht.distinct k with ⟨w, hmem, hw⟩ | ⟨-, hw⟩
      · by_cases hne : w = .nil
        · rw [hw, hne]
        · exact absurd rfl (habsent (k, w) (mem_entries_iff.2 ⟨hne, .inr hmem⟩))
      · exact hw.symm
    · rw [getKey_of_item hk]
      by_cases hne : t.items.getD i .nil = .nil
      · exact hne.symm
      · obtain ⟨hpos, hi⟩ := itemIndex?_eq_some_iff.1 hk
        have hkey : k = .ofNat (i + 1) := positive?_inj hpos (positive?_of_getD ht hne)
        exact absurd hkey.symm (habsent _ (mem_entries_iff.2 ⟨hne, .inl ⟨i, hi, rfl⟩⟩))

/-! ### Arranging -/

variable {es : List (Value × Value)} {e : Value × Value} {items : Array Value} {size : Nat}

/-- Puts an entry into the sequence part, if it belongs there. -/
def place (size : Nat) (items : Array Value) (e : Value × Value) : Array Value :=
  match positive? e.1 with
  | some n => if n ≤ size then items.set! (n - 1) e.2 else items
  | none => items

/-- The entry belongs into a sequence part of this size. -/
def belongs (size : Nat) (e : Value × Value) : Bool :=
  (positive? e.1).any fun n => n ≤ size

theorem arrange_eq (size : Nat) (metatable : Option Nat) (es : List (Value × Value)) : arrange size metatable es =
    { items := es.foldl (place size) (Array.replicate size .nil)
      others := es.filter fun e => !belongs size e
      room := powerFor (es.filter fun e => !belongs size e).length
      metatable } :=
  rfl

theorem size_place (size : Nat) (items : Array Value) (e : Value × Value) : (place size items e).size = items.size := by
  unfold place
  split
  · split
    · simp
    · rfl
  · rfl

theorem size_foldl_place (size : Nat) (es : List (Value × Value)) (items : Array Value) :
    (es.foldl (place size) items).size = items.size := by
  induction es generalizing items with
  | nil => rfl
  | cons e es ih => rw [List.foldl_cons, ih, size_place]

theorem getD_place (hsize : items.size = size) (e : Value × Value) (j : Nat) : (place size items e).getD j .nil =
    if positive? e.1 = some (j + 1) ∧ j < size then e.2 else items.getD j .nil := by
  unfold place
  split
  · rename_i n hn
    obtain ⟨-, -, -, h1, -⟩ := positive?_eq_some hn
    simp only [hn, Option.some.injEq]
    split
    · rw [getD_set! items (by omega) e.2 j]
      by_cases hj : j = n - 1
      · rw [if_pos hj, if_pos (by omega)]
      · rw [if_neg hj, if_neg (by omega)]
    · rw [if_neg (by omega)]
  · rename_i hnone
    rw [hnone, if_neg (by simp)]

/-- A position keeps what it holds, unless an entry has it for its key. -/
theorem getD_foldl_place_of_absent (hsize : items.size = size) (h : ∀ e ∈ es, positive? e.1 ≠ some (j + 1)) :
    (es.foldl (place size) items).getD j .nil = items.getD j .nil := by
  induction es generalizing items with
  | nil => rfl
  | cons a es ih =>
    rw [List.foldl_cons, ih (by rw [size_place, hsize]) fun e he => h e (List.mem_cons_of_mem a he),
      getD_place hsize, if_neg fun ha => h a List.mem_cons_self ha.1]

/-- An entry that belongs into the sequence part is put there. -/
theorem getD_foldl_place (hes : Distinct es) (hsize : items.size = size) (he : e ∈ es)
    (hpos : positive? e.1 = some (j + 1)) (hj : j < size) : (es.foldl (place size) items).getD j .nil = e.2 := by
  induction es generalizing items with
  | nil => cases he
  | cons a es ih =>
    obtain ⟨ha, hes⟩ := List.pairwise_cons.1 hes
    have hsize' : (place size items a).size = size := by rw [size_place, hsize]
    rw [List.foldl_cons]
    rcases List.mem_cons.1 he with rfl | he
    · have habsent : ∀ b ∈ es, positive? b.1 ≠ some (j + 1) := fun b hb hb' => ha b hb (positive?_inj hpos hb')
      rw [getD_foldl_place_of_absent hsize' habsent, getD_place hsize, if_pos ⟨hpos, hj⟩]
    · exact ih hes hsize' he

theorem itemIndex?_arrange (size : Nat) (metatable : Option Nat) (es : List (Value × Value)) (k : Value) :
    (arrange size metatable es).itemIndex? k = some j ↔ positive? k = some (j + 1) ∧ j < size := by
  rw [itemIndex?_eq_some_iff, arrange_eq]
  dsimp only
  rw [size_foldl_place, Array.size_replicate]

theorem belongs_iff : belongs size e = true ↔ ∃ j, positive? e.1 = some (j + 1) ∧ j < size := by
  unfold belongs
  rcases hn : positive? e.1 with _ | n
  · simp
  · obtain ⟨-, -, -, h1, -⟩ := positive?_eq_some hn
    simp only [Option.any_some, decide_eq_true_eq, Option.some.injEq]
    constructor
    · intro hle
      exact ⟨n - 1, by omega, by omega⟩
    · rintro ⟨j, hj, hlt⟩
      omega

/-- An arranged table holds its entries. -/
theorem getKey_arrange (hes : Distinct es) (size : Nat) (metatable : Option Nat) (k : Value) :
    (arrange size metatable es).getKey k = lookup k es := by
  have hempty : ∀ j, (Array.replicate size Value.nil).getD j .nil = .nil := by
    intro j
    rw [Array.getD_eq_getD_getElem?, Array.getElem?_replicate]
    split <;> rfl
  rcases hk : (arrange size metatable es).itemIndex? k with _ | j
  · rw [getKey_of_other hk, arrange_eq]
    refine lookup_filter fun e he hek => ?_
    rw [Bool.not_eq_true', Bool.eq_false_iff]
    intro hbelongs
    obtain ⟨j, hpos, hj⟩ := belongs_iff.1 hbelongs
    rw [hek] at hpos
    rw [(itemIndex?_arrange size metatable es k).2 ⟨hpos, hj⟩] at hk
    cases hk
  · obtain ⟨hpos, hj⟩ := (itemIndex?_arrange size metatable es k).1 hk
    rw [getKey_of_item hk, arrange_eq]
    dsimp only
    rcases lookup_cases hes k with ⟨v, hmem, hv⟩ | ⟨habsent, hnil⟩
    · rw [hv]
      exact getD_foldl_place hes Array.size_replicate hmem hpos hj
    · have hnone : ∀ e ∈ es, positive? e.1 ≠ some (j + 1) := fun e he he' => habsent e he (positive?_inj he' hpos)
      rw [hnil, getD_foldl_place_of_absent Array.size_replicate hnone, hempty]

theorem valid_arrange (hes : Distinct es) (size : Nat) (metatable : Option Nat) :
    (arrange size metatable es).Valid where
  distinct := hes.filter _
  apart := by
    intro e he
    have hbelongs : (!belongs size e) = true := (List.mem_filter.1 he).2
    rcases hk : (arrange size metatable es).itemIndex? e.1 with _ | j
    · rfl
    · rw [belongs_iff.2 ⟨j, (itemIndex?_arrange size metatable es e.1).1 hk⟩] at hbelongs
      cases hbelongs
  inRange := by
    intro j hj
    by_cases hex : ∃ e ∈ es, positive? e.1 = some (j + 1)
    · obtain ⟨e, -, he⟩ := hex
      obtain ⟨-, -, -, -, hlt⟩ := positive?_eq_some he
      exact hlt
    · refine absurd ?_ hj
      rw [arrange_eq]
      dsimp only
      rw [getD_foldl_place_of_absent Array.size_replicate fun e he he' => hex ⟨e, he, he'⟩,
        Array.getD_eq_getD_getElem?, Array.getElem?_replicate]
      split <;> rfl

/-! ## Setting a key -/

/-- A key that is in no place has no entry. -/
theorem absent_entries (ht : t.Valid) (hindex : t.itemIndex? k = none) (hother : ∀ e ∈ t.others, e.1 ≠ k) :
    ∀ e ∈ t.entries, e.1 ≠ k := by
  intro e he hek
  obtain ⟨hne, ⟨i, hi, rfl⟩ | hmem⟩ := mem_entries_iff.1 he
  · rw [← hek, itemIndex?_eq_some_iff.2 ⟨positive?_of_getD ht hne, hi⟩] at hindex
    cases hindex
  · exact hother e hmem hek

/-- The steps in which a key can be set, in a table without that key. -/
theorem setKey_of_absent (hindex : t.itemIndex? k = none) (hother : replace? k v t.others = none) : t.setKey k v =
    if v.isNil then t
    else if t.others.length < t.room then { t with others := t.others ++ [(k, v)] } else t.rearrange k v := by
  rw [setKey, hindex]
  dsimp only
  rw [hother]

/-- What setting a key does to a table. -/
inductive Sets (t : Table) (k v : Value) : Table → Prop where
  | item {j : Nat} (h : t.itemIndex? k = some j) : Sets t k v { t with items := t.items.set! j v }
  | replaced {fs : List (Value × Value)} (h : t.itemIndex? k = none) (hothers : replace? k v t.others = some fs) :
      Sets t k v { t with others := fs }
  | absent (h : t.itemIndex? k = none) (hothers : ∀ e ∈ t.others, e.1 ≠ k) (hv : v = .nil) : Sets t k v t
  | added (h : t.itemIndex? k = none) (hothers : ∀ e ∈ t.others, e.1 ≠ k) :
      Sets t k v { t with others := t.others ++ [(k, v)] }
  | rearranged (h : t.itemIndex? k = none) (hothers : ∀ e ∈ t.others, e.1 ≠ k) : Sets t k v (t.rearrange k v)

theorem sets_setKey (t : Table) (k v : Value) : t.Sets k v (t.setKey k v) := by
  rcases hindex : t.itemIndex? k with _ | i
  · rcases hother : replace? k v t.others with _ | fs
    · rw [setKey_of_absent hindex hother]
      split
      · rename_i hnil
        refine .absent hindex (replace?_eq_none hother) ?_
        cases v <;> first | rfl | cases hnil
      · split
        · exact .added hindex (replace?_eq_none hother)
        · exact .rearranged hindex (replace?_eq_none hother)
    · rw [setKey, hindex]
      dsimp only
      rw [hother]
      exact .replaced hindex hother
  · rw [setKey, hindex]
    exact .item hindex

/-- The second table is well-formed and gives for one key the value and for all others what the first one gives. -/
structure Updates (t : Table) (k v : Value) (t' : Table) : Prop where
  valid : t'.Valid
  getKey : ∀ k', t'.getKey k' = if k' = k then v else t.getKey k'

theorem ne_of_itemIndex?_ne (h : t.itemIndex? k' ≠ t.itemIndex? k) : k' ≠ k :=
  fun hk => h (congrArg t.itemIndex? hk)

theorem updates_item (ht : t.Valid) (hindex : t.itemIndex? k = some i) :
    t.Updates k v { t with items := t.items.set! i v } := by
  obtain ⟨hpos, hi⟩ := itemIndex?_eq_some_iff.1 hindex
  have hsame : ∀ k', itemIndex? { t with items := t.items.set! i v } k' = t.itemIndex? k' := by simp [itemIndex?]
  refine ⟨⟨ht.distinct, fun e he => (hsame e.1).trans (ht.apart e he), ?_⟩, fun k' => ?_⟩
  · intro j hj
    rw [getD_set! t.items hi] at hj
    by_cases hji : j = i
    · obtain ⟨-, -, -, -, hlt⟩ := positive?_eq_some hpos
      rw [hji]
      exact hlt
    · rw [if_neg hji] at hj
      exact ht.inRange j hj
  · rcases hk' : t.itemIndex? k' with _ | j
    · have hne : k' ≠ k := ne_of_itemIndex?_ne (t := t) (by simp [hk', hindex])
      rw [if_neg hne, getKey_of_other hk', getKey_of_other ((hsame k').trans hk')]
    · rw [getKey_of_item hk', getKey_of_item ((hsame k').trans hk')]
      dsimp only
      rw [getD_set! t.items hi]
      by_cases hji : j = i
      · subst hji
        rw [if_pos rfl, if_pos (itemIndex?_inj hk' hindex)]
      · have hne : k' ≠ k := ne_of_itemIndex?_ne (t := t) (by simpa [hk', hindex] using hji)
        rw [if_neg hji, if_neg hne]

/-- A change of the entries outside the sequence part. -/
theorem updates_others (ht : t.Valid) (hindex : t.itemIndex? k = none) {fs : List (Value × Value)}
    (hdistinct : Distinct fs) (hkeys : ∀ e ∈ fs, e.1 = k ∨ ∃ e' ∈ t.others, e'.1 = e.1)
    (hlookup : ∀ k', lookup k' fs = if k' = k then v else lookup k' t.others) :
    t.Updates k v { t with others := fs } := by
  refine ⟨⟨hdistinct, ?_, ht.inRange⟩, fun k' => ?_⟩
  · intro e he
    change t.itemIndex? e.1 = none
    rcases hkeys e he with hk | ⟨e', he', hk⟩
    · rw [hk, hindex]
    · rw [← hk, ht.apart e' he']
  · rcases hk' : t.itemIndex? k' with _ | j
    · rw [getKey_of_other hk', getKey_of_other (t := { t with others := fs }) hk', hlookup]
    · have hne : k' ≠ k := ne_of_itemIndex?_ne (t := t) (by simp [hk', hindex])
      rw [if_neg hne, getKey_of_item hk', getKey_of_item (t := { t with others := fs }) hk']

theorem updates_replaced (ht : t.Valid) (hindex : t.itemIndex? k = none) {fs : List (Value × Value)}
    (hfs : replace? k v t.others = some fs) : t.Updates k v { t with others := fs } := by
  obtain ⟨hlookup, hkeys⟩ := replace?_eq_some hfs
  refine updates_others ht hindex ?_ (fun e he => .inr ?_) hlookup
  · rw [distinct_iff_map, hkeys, ← distinct_iff_map]
    exact ht.distinct
  · exact List.mem_map.1 (hkeys ▸ List.mem_map_of_mem he)

theorem updates_appended (ht : t.Valid) (hindex : t.itemIndex? k = none) (hout : ∀ e ∈ t.others, e.1 ≠ k) :
    t.Updates k v { t with others := t.others ++ [(k, v)] } := by
  refine updates_others ht hindex (ht.distinct.concat hout) (fun e he => ?_) (lookup_concat ht.distinct hout v)
  rcases List.mem_append.1 he with he | he
  · exact .inr ⟨e, he, rfl⟩
  · rw [List.mem_singleton.1 he]
    exact .inl rfl

theorem updates_rearranged (ht : t.Valid) (hindex : t.itemIndex? k = none) (hout : ∀ e ∈ t.others, e.1 ≠ k) :
    t.Updates k v (t.rearrange k v) := by
  have habsent := absent_entries ht hindex hout
  have hes : Distinct (t.entries ++ [(k, v)]) := (distinct_entries ht).concat habsent
  refine ⟨valid_arrange hes _ _, fun k' => ?_⟩
  rw [rearrange, getKey_arrange hes, lookup_concat (distinct_entries ht) habsent, lookup_entries ht]

theorem updates_absent (ht : t.Valid) (hindex : t.itemIndex? k = none) (hout : ∀ e ∈ t.others, e.1 ≠ k) :
    t.Updates k .nil t := by
  refine ⟨ht, fun k' => ?_⟩
  by_cases hk : k' = k
  · rw [if_pos hk, hk, getKey_of_other hindex, lookup_of_absent hout]
  · rw [if_neg hk]

theorem Sets.updates {t' : Table} (ht : t.Valid) (h : t.Sets k v t') : t.Updates k v t' := by
  cases h with
  | item hindex => exact updates_item ht hindex
  | replaced hindex hother => exact updates_replaced ht hindex hother
  | absent hindex hout hv => exact hv ▸ updates_absent ht hindex hout
  | added hindex hout => exact updates_appended ht hindex hout
  | rearranged hindex hout => exact updates_rearranged ht hindex hout

/-- Setting a key changes the value of that key. -/
theorem updates_setKey (ht : t.Valid) (k v : Value) : t.Updates k v (t.setKey k v) :=
  (sets_setKey t k v).updates ht

theorem Sets.metatable {t' : Table} (h : t.Sets k v t') : t'.metatable = t.metatable := by
  cases h <;> rfl

@[simp]
theorem metatable_setKey (t : Table) (k v : Value) : (t.setKey k v).metatable = t.metatable :=
  (sets_setKey t k v).metatable

theorem metatable_set (t : Table) (k v : Value) : (t.set k v).metatable = t.metatable :=
  metatable_setKey t k.toKey v

theorem Valid.set (ht : t.Valid) (k v : Value) : (t.set k v).Valid :=
  (updates_setKey ht k.toKey v).valid

theorem get_set (ht : t.Valid) (k v k' : Value) : (t.set k v).get k' = if k'.toKey = k.toKey then v else t.get k' :=
  (updates_setKey ht k.toKey v).getKey k'.toKey

end Valid

end Scratchpad.Lua.Table
