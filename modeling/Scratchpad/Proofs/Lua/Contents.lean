import Scratchpad.Proofs.Lua.Lasting
import Scratchpad.Proofs.Lua.Store

/-!
# What stores hold

A lasting invariant is `Standing` if it holds at the beginning and the making of environments and evaluations keeps it.
Two of them are proved here. All tables of a store are maps (`Store.standing_wellFormed`), since a table has no more
positions than there are positive integers. And programs only pass on the functions that record what evaluations print,
they make none: what holds of all other values, and of all values in a store, goes on to hold of these
(`Store.standing_holding`).
-/

namespace Scratchpad.Lua

open HasValues

namespace Table

variable {t : Table}

/-! ## Tables of constructors are maps -/

theorem getD_replicate_nil (count i : Nat) : (Array.replicate count Value.nil).getD i .nil = .nil := by
  rw [Array.getD_eq_getD_getElem?, Array.getElem?_replicate]
  split <;> rfl

theorem valid_construct (count room : Nat) : Valid { items := Array.replicate count .nil, room } where
  distinct := .nil
  apart := by simp
  inRange i hi := absurd (getD_replicate_nil count i) hi

theorem length_take_maxItems_lt (vs : List Value) : (vs.take maxItems).length < 0x8000000000000000 :=
  Nat.lt_succ_of_le (List.length_take_le maxItems vs)

theorem valid_ofItems (vs : List Value) (fields : Nat) : (ofItems vs fields).Valid where
  distinct := .nil
  apart := by simp [ofItems]
  inRange i hi := by
    by_cases hsize : i < (vs.take maxItems).length
    · exact Nat.lt_of_le_of_lt hsize (length_take_maxItems_lt vs)
    · refine absurd ?_ hi
      simp only [ofItems, Array.getD_eq_getD_getElem?, List.getElem?_toArray,
        List.getElem?_eq_none (Nat.le_of_not_lt hsize), Option.getD_none]

/-- The positions behind the items that are filled in. -/
theorem getD_fillItems (vs : List Value) (t : Table) {i : Nat} (hi : (vs.take maxItems).length ≤ i) :
    (Meaning.fillItems vs t).items.getD i .nil = t.items.getD i .nil := by
  simp only [Meaning.fillItems, Array.getD_eq_getD_getElem?, Array.getElem?_append, List.size_toArray,
    if_neg (Nat.not_lt.2 hi), Array.getElem?_extract, Nat.min_self, Nat.add_sub_cancel' hi]
  split
  · rfl
  · rw [Array.getElem?_eq_none (by omega)]

theorem Valid.fillItems (ht : t.Valid) (vs : List Value) : (Meaning.fillItems vs t).Valid where
  distinct := ht.distinct.filter _
  apart e he := by
    obtain ⟨hmem, hcovered⟩ := List.mem_filter.1 he
    rcases hindex : (Meaning.fillItems vs t).itemIndex? e.1 with _ | j
    · rfl
    · obtain ⟨hpos, hj⟩ := itemIndex?_eq_some_iff.1 hindex
      simp only [hpos, Option.any_some, Bool.not_eq_true', decide_eq_false_iff_not] at hcovered
      simp only [Meaning.fillItems, Array.size_append, List.size_toArray, Array.size_extract] at hj
      have hold : t.itemIndex? e.1 = some j := itemIndex?_eq_some_iff.2 ⟨hpos, by omega⟩
      rw [ht.apart e hmem] at hold
      cases hold
  inRange i hi := by
    by_cases hlt : i < (vs.take maxItems).length
    · exact Nat.lt_of_le_of_lt hlt (length_take_maxItems_lt vs)
    · rw [getD_fillItems vs t (Nat.le_of_not_lt hlt)] at hi
      exact ht.inRange i hi

end Table

/-! ## Invariants from the beginning -/

/-- A lasting invariant that also holds at the beginning, and that the making of environments and evaluations keeps. -/
structure Invariant.Standing (I : Invariant) : Prop extends I.Lasting where
  empty : I.store {}
  library : ∀ {s es}, I.store s → (∀ e ∈ es, I.value e.2) → I.store (s.pushTable (Library.tableOf es))
  environment : ∀ {s}, I.store s → ∀ mt, I.store (s.pushTable { metatable := some mt })
  metatables : ∀ {s}, I.store s → ∀ strings files, I.store { s with stringMeta := strings, fileMeta := files }
  run : ∀ {s}, I.store s → ∀ n, I.store { s with run := n }

namespace Invariant.Standing

variable {I : Invariant} {s : Store} (h : I.Standing)

include h

theorem functions (fs : List LibFunction) : ∀ e ∈ Library.functionEntries fs, I.value e.2 := by
  intro e he
  obtain ⟨f, -, rfl⟩ := List.mem_map.1 he
  exact h.plain nofun

theorem constants (name : String) : ∀ e ∈ (Library.constants.lookup name).getD [], I.value e.2 := by
  have hplain : ∀ l ∈ Library.constants, ∀ e ∈ l.2, ∀ n, e.2 ≠ .builtin (.capture n) := by
    simp only [Library.constants, List.forall_mem_cons, List.not_mem_nil, false_implies, implies_true, and_true]
    exact ⟨⟨nofun, nofun, nofun, nofun⟩, nofun, nofun, nofun⟩
  cases hlookup : Library.constants.lookup name with
  | none => exact fun e he => absurd he List.not_mem_nil
  | some es =>
    obtain ⟨l, l', heq, -⟩ := List.lookup_eq_some_iff.1 hlookup
    exact fun e he => h.plain (hplain (name, es) (by simp [heq]) e he)

theorem addLibrary (hs : I.store s) (name : String) (fs : List LibFunction) :
    I.store (Library.addLibrary s name fs) := by
  refine h.setEntry (h.library hs fun e he => ?_) (h.str _) (h.table _) _
  rcases List.mem_append.1 he with he | he
  · exact h.functions fs e he
  · exact h.constants name e he

theorem addLibraries (hs : I.store s) (ls : List (String × List LibFunction)) :
    I.store (ls.foldl (fun s l => Library.addLibrary s l.1 l.2) s) := by
  induction ls generalizing s with
  | nil => exact hs
  | cons l ls ih => exact ih (h.addLibrary hs l.1 l.2)

theorem addMetatables (hs : I.store s) : I.store (Library.addMetatables s) := by
  refine h.metatables (h.library (h.library (h.library hs ?_) (h.functions _)) ?_) _ _
  · refine List.forall_mem_cons.2 ⟨h.entry hs Store.globals (.ofString "string"), fun e he => ?_⟩
    obtain ⟨event, -, rfl⟩ := List.mem_map.1 he
    exact h.plain nofun
  · simp only [List.forall_mem_cons, List.not_mem_nil, false_implies, implies_true, and_true]
    exact ⟨h.table _, h.str _, h.plain nofun⟩

/-- What lasts holds of the store in which programs begin. -/
theorem initialStore : I.store Library.initialStore := by
  refine h.addMetatables (h.addLibraries (h.setEntry (h.library h.empty ?_) (h.str _) (h.table _) _) _)
  exact List.forall_mem_cons.2 ⟨h.str _, h.functions _⟩

end Invariant.Standing

/-! ## Maps -/

namespace Store

/-- All tables are maps, whatever the values are. -/
def wellFormed : Invariant := ⟨fun _ => True, Valid⟩

/-- Programs keep tables well-formed. -/
theorem standing_wellFormed : wellFormed.Standing where
  plain _ := trivial
  cell _ _ := trivial
  entry _ _ _ := trivial
  next _ _ _ := all_of_forall (fun _ => trivial) _
  setCell h _ _ := h
  pushCells h _ := h
  pushClosure h _ := h
  setEntry h _ _ id := h.rawSet id _ _
  fillItems h _ id := h.modifyTable id fun _ ht => ht.fillItems _
  construct h count room := h.pushTable (Table.valid_construct count room)
  pack h _ := h.pushTable ((Table.valid_ofItems _ 1).set _ _)
  setMetatable h id _ := h.modifyTable id fun _ ht => ⟨ht.distinct, ht.apart, ht.inRange⟩
  print h _ := h
  empty _ := Table.valid_empty none
  library h _ := h.pushTable (Library.tableOf_valid _).1
  environment h _ := h.pushTable (Table.valid_empty _)
  metatables h _ _ := h
  run h _ := h

end Store

/-! ## Values in tables -/

instance {α : Type} [HasValues α] : HasValues (Array α) :=
  ⟨fun V as => ∀ a ∈ as, All V a, fun h _ _ _ => all_of_forall h _⟩

instance : HasValues Table :=
  ⟨fun V t => All V t.items ∧ All V t.others, fun h _ => ⟨all_of_forall h _, all_of_forall h _⟩⟩

instance : HasValues Store :=
  ⟨fun V s => All V s.cells ∧ ∀ id, All V (s.table id), fun h _ => ⟨all_of_forall h _, fun _ => all_of_forall h _⟩⟩

/-- The property holds of all values but functions that record lines. -/
def Plain (V : Value → Prop) : Prop :=
  ∀ v, (∀ n, v ≠ .builtin (.capture n)) → V v

namespace Table

variable {t : Table} {es fs : List (Value × Value)} {k v : Value} {V : Value → Prop}

theorem all_toKey (hV : Plain V) (hk : V k) : V k.toKey := by
  unfold Value.toKey
  split
  · split
    · exact hV _ nofun
    · exact hk
  · exact hk

theorem all_getD {items : Array Value} (hV : Plain V) (h : All V items) (i : Nat) : V (items.getD i .nil) := by
  rw [Array.getD_eq_getD_getElem?]
  cases hi : items[i]? with
  | none => exact hV _ nofun
  | some v => exact h v (Array.mem_of_getElem? hi)

theorem all_lookup (hV : Plain V) (h : All V es) (k : Value) : V (lookup k es) := by
  induction es with
  | nil => exact hV _ nofun
  | cons e es ih =>
    obtain ⟨he, hes⟩ := List.forall_mem_cons.1 h
    rw [lookup]
    split
    · exact he.2
    · exact ih hes

theorem all_get (hV : Plain V) (h : All V t) (k : Value) : V (t.get k) := by
  rw [get, getKey]
  split
  · exact all_getD hV h.1 _
  · exact all_lookup hV h.2 _

theorem all_replace? (hk : V k) (hv : V v) (h : All V es) (hfs : replace? k v es = some fs) : All V fs := by
  induction es generalizing fs with
  | nil => cases hfs
  | cons e es ih =>
    obtain ⟨he, hes⟩ := List.forall_mem_cons.1 h
    rw [replace?] at hfs
    split at hfs
    · cases hfs
      exact all_cons ⟨hk, hv⟩ hes
    · obtain ⟨gs, hgs, rfl⟩ := Option.map_eq_some_iff.1 hfs
      exact all_cons he (ih hes hgs)

theorem all_entries (hV : Plain V) (h : All V t) : All V t.entries := by
  intro e he
  obtain ⟨-, ⟨i, -, rfl⟩ | hother⟩ := mem_entries_iff.1 he
  · exact ⟨hV _ nofun, all_getD hV h.1 i⟩
  · exact h.2 e hother

theorem all_foldl_place (size : Nat) {items : Array Value} (hitems : All V items) (h : All V es) :
    All V (es.foldl (place size) items) := by
  induction es generalizing items with
  | nil => exact hitems
  | cons e es ih =>
    obtain ⟨he, hes⟩ := List.forall_mem_cons.1 h
    refine ih ?_ hes
    unfold place
    split
    · split
      · exact Machine.forall_mem_set! hitems _ he.2
      · exact hitems
    · exact hitems

theorem all_arrange (hV : Plain V) (size : Nat) (metatable : Option Nat) (h : All V es) :
    All V (arrange size metatable es) := by
  rw [arrange_eq]
  refine ⟨all_foldl_place size (fun v hv => ?_) h, fun e he => h e (List.mem_filter.1 he).1⟩
  rw [Array.eq_of_mem_replicate hv]
  exact hV _ nofun

theorem all_set (hV : Plain V) (h : All V t) (hk : V k) (hv : V v) : All V (t.set k v) := by
  have hk := all_toKey hV hk
  have hsets : Sets t k.toKey v (t.set k v) := sets_setKey t k.toKey v
  generalize t.set k v = t' at hsets
  cases hsets with
  | item _ => exact ⟨Machine.forall_mem_set! h.1 _ hv, h.2⟩
  | replaced _ hothers => exact ⟨h.1, all_replace? hk hv h.2 hothers⟩
  | absent _ _ _ => exact h
  | added _ _ => exact ⟨h.1, List.forall_mem_append.2 ⟨h.2, all_singleton (show _ ∧ _ from ⟨hk, hv⟩)⟩⟩
  | rearranged _ _ =>
    exact all_arrange hV _ _ (List.forall_mem_append.2 ⟨all_entries hV h, all_singleton (show _ ∧ _ from ⟨hk, hv⟩)⟩)

theorem all_empty (metatable : Option Nat) : All V ({ metatable } : Table) :=
  ⟨fun _ hv => absurd hv (Array.not_mem_empty _), all_nil⟩

theorem all_tableOf (hV : Plain V) {es : List (String × Value)} (hes : ∀ e ∈ es, V e.2) :
    All V (Library.tableOf es) := by
  have hfold : ∀ t : Table, All V t → All V (es.foldl (fun t e => t.set (.ofString e.1) e.2) t) := by
    induction es with
    | nil => exact fun _ h => h
    | cons e es ih =>
      obtain ⟨he, hes⟩ := List.forall_mem_cons.1 hes
      exact fun t ht => ih hes _ (all_set hV ht (hV _ nofun) he)
  exact hfold {} (all_empty none)

theorem all_fillItems {vs : List Value} (h : All V t) (hvs : All V vs) : All V (Meaning.fillItems vs t) := by
  refine ⟨fun v hv => ?_, fun e he => h.2 e (List.mem_filter.1 he).1⟩
  rcases Array.mem_append.1 hv with hv | hv
  · exact hvs v (List.mem_of_mem_take (List.mem_toArray.1 hv))
  · obtain ⟨i, hi, rfl⟩ := Array.mem_extract_iff_getElem.1 hv
    exact h.1 _ (Array.getElem_mem _)

theorem all_nextItem (hV : Plain V) (h : All V t) (i fuel : Nat) : All V (t.nextItem i fuel) := by
  induction fuel generalizing i with
  | zero => exact all_none
  | succ fuel ih =>
    rw [nextItem]
    split
    · exact ih (i + 1)
    · exact all_some ⟨hV _ nofun, all_getD hV h.1 i⟩

theorem all_firstOther (h : All V es) : All V (firstOther es) :=
  fun e he => h e (List.mem_of_find?_eq_some he)

theorem all_behind? (h : All V es) (hfs : behind? k es = some fs) : All V fs := by
  induction es with
  | nil => cases hfs
  | cons e es ih =>
    obtain ⟨-, hes⟩ := List.forall_mem_cons.1 h
    rw [behind?] at hfs
    split at hfs
    · cases hfs
      exact hes
    · exact ih hes hfs

theorem all_next? (hV : Plain V) (h : All V t) (k : Value) : All V (t.next? k) := by
  have hitems : ∀ i, All V ((t.nextItem i (t.items.size - i)).orElse fun _ => firstOther t.others) := by
    intro i
    cases hnext : t.nextItem i (t.items.size - i) with
    | none => exact all_firstOther h.2
    | some e => exact all_some (all_nextItem hV h i _ e hnext)
  rw [next?]
  dsimp only
  split
  · exact all_some (hitems 0)
  · split
    · exact all_some (hitems _)
    · cases hbehind : behind? k.toKey t.others with
      | none => exact all_none
      | some fs => exact all_some (all_firstOther (all_behind? h.2 hbehind))

end Table

/-! ## Values in stores -/

namespace Store

variable {s : Store} {V : Value → Prop}

theorem all_modifyTable (h : All V s) (id : Nat) {f : Table → Table} (hf : ∀ t : Table, All V t → All V (f t)) :
    All V (s.modifyTable id f) := by
  refine ⟨h.1, fun id' => ?_⟩
  rcases table_modifyTable s id f id' with ht | ht <;> rw [ht]
  · exact h.2 id'
  · exact hf _ (h.2 id')

theorem all_pushTable (h : All V s) {t : Table} (ht : All V t) : All V (s.pushTable t) := by
  refine ⟨h.1, fun id => ?_⟩
  rcases table_pushTable s t id with hid | hid <;> rw [hid]
  · exact h.2 id
  · exact ht

theorem all_pushCells (h : All V s) {vs : List Value} (hvs : All V vs) : All V (s.pushCells vs) := by
  refine ⟨?_, h.2⟩
  have hpush : ∀ cells : Array Value, All V cells → All V (vs.foldl Array.push cells) := by
    induction vs with
    | nil => exact fun _ h => h
    | cons v vs ih =>
      intro cells hcells
      obtain ⟨hv, hvs⟩ := List.forall_mem_cons.1 hvs
      refine ih hvs _ fun w hw => ?_
      rcases Array.mem_push.1 hw with hw | rfl
      · exact hcells w hw
      · exact hv
  exact hpush s.cells h.1

/-- All values in the store and all values that are handled satisfy the property. -/
def holding (V : Value → Prop) : Invariant := ⟨V, fun s => All V s⟩

/-- Programs make no functions that record lines. -/
theorem standing_holding (hV : Plain V) : (holding V).Standing where
  plain := hV _
  cell h i := Table.all_getD hV h.1 i
  entry h id k := Table.all_get hV (h.2 id) k
  next h id k := Table.all_next? hV (h.2 id) k
  setCell h hv i := ⟨Machine.forall_mem_set! h.1 i hv, h.2⟩
  pushCells h hvs := all_pushCells h hvs
  pushClosure h _ := h
  setEntry h hk hv id := all_modifyTable h id fun _ ht => Table.all_set hV ht hk hv
  fillItems h hvs id := all_modifyTable h id fun _ ht => Table.all_fillItems ht hvs
  construct h count room := by
    refine all_pushTable h ⟨fun v hv => ?_, all_nil⟩
    rw [Array.eq_of_mem_replicate hv]
    exact hV _ nofun
  pack h hvs := by
    refine all_pushTable h (Table.all_set hV ⟨fun v hv => ?_, all_nil⟩ (hV _ nofun) (hV _ nofun))
    exact hvs v (List.mem_of_mem_take (List.mem_toArray.1 hv))
  setMetatable h id _ := all_modifyTable h id fun _ ht => ht
  print h _ := h
  empty := ⟨fun _ hv => absurd hv (Array.not_mem_empty _), fun _ => Table.all_empty none⟩
  library h hes := all_pushTable h (Table.all_tableOf hV hes)
  environment h _ := all_pushTable h (Table.all_empty _)
  metatables h _ _ := h
  run h _ := h

end Store

end Scratchpad.Lua
