import Mathlib.Logic.Function.Basic
import Scratchpad.Lua.Library
import Scratchpad.Proofs.Lua.Table

/-!
# Tables of a store

What a write and a new table leave of the other tables. In a store all tables may be maps (`Valid`); then a write
changes the value of its key only (`Valid.changesOnly_rawSet`). A table holds the entries that a function on keys gives
(`Holds`); a table reads through if its metatable has the functions of an environment (`ReadsThrough`).
-/

namespace Scratchpad.Lua.Store

variable {s s' : Store} {t t' : Nat} {k v : Value}

@[simp]
theorem size_rawSet : (s.rawSet t k v).tables.size = s.tables.size :=
  Array.size_modify

@[simp]
theorem size_pushTable (x : Table) : (s.pushTable x).tables.size = s.tables.size + 1 :=
  Array.size_push x

theorem table_rawSet_self (ht : t < s.tables.size) : (s.rawSet t k v).table t = (s.table t).set k v := by
  simp only [rawSet, modifyTable, table, Array.getD_eq_getD_getElem?, Array.getElem?_modify, if_pos,
    Array.getElem?_eq_getElem ht]
  rfl

theorem table_rawSet_of_ne (h : t ≠ t') : (s.rawSet t' k v).table t = s.table t := by
  simp only [rawSet, modifyTable, table, Array.getD_eq_getD_getElem?, Array.getElem?_modify, if_neg (Ne.symm h)]

theorem table_pushTable_self (x : Table) : (s.pushTable x).table s.tables.size = x := by
  rw [pushTable, table, Array.getD_eq_getD_getElem?, Array.getElem?_push_size]
  rfl

theorem table_pushTable_of_lt (h : t < s.tables.size) (x : Table) : (s.pushTable x).table t = s.table t := by
  rw [pushTable, table, table, Array.getD_eq_getD_getElem?, Array.getD_eq_getD_getElem?, Array.getElem?_push_lt h,
    Array.getElem?_eq_getElem h]

theorem table_eq_of_tables_eq (hs : s'.tables = s.tables) : s'.table = s.table := by
  funext id
  rw [table, table, hs]

theorem rawGet_of_tables_eq (hs : s'.tables = s.tables) (t : Nat) (k : Value) : s'.rawGet t k = s.rawGet t k := by
  rw [rawGet, table_eq_of_tables_eq hs, rawGet]

/-- Where there is no table, an empty one is read. -/
theorem table_of_le (h : s.tables.size ≤ t) : s.table t = {} := by
  rw [table, Array.getD_eq_getD_getElem?, Array.getElem?_eq_none h]
  rfl

theorem lt_of_rawGet_ne_nil (h : s.rawGet t k ≠ .nil) : t < s.tables.size := by
  by_contra hlt
  rw [rawGet, table_of_le (Nat.le_of_not_lt hlt)] at h
  exact h (Table.getKey_empty _)

theorem table_rawSet_of_le (h : s.tables.size ≤ t) (k v : Value) : (s.rawSet t k v).table t = s.table t := by
  rw [table_of_le h, table_of_le (by rwa [size_rawSet])]

@[simp]
theorem metatable_rawSet : ((s.rawSet t' k v).table t).metatable = (s.table t).metatable := by
  by_cases h : t = t'
  · subst h
    by_cases ht : t < s.tables.size
    · rw [table_rawSet_self ht]
      exact Table.metatable_set _ k v
    · rw [table_rawSet_of_le (Nat.le_of_not_lt ht)]
  · rw [table_rawSet_of_ne h]

theorem table_modifyTable (s : Store) (id : Nat) (f : Table → Table) (id' : Nat) :
    (s.modifyTable id f).table id' = s.table id' ∨ (s.modifyTable id f).table id' = f (s.table id') := by
  simp only [modifyTable, table, Array.getD_eq_getD_getElem?, Array.getElem?_modify]
  by_cases hid : id = id'
  · rw [if_pos hid]
    cases s.tables[id']? with
    | none => exact .inl rfl
    | some t => exact .inr rfl
  · rw [if_neg hid]
    exact .inl rfl

theorem table_pushTable (s : Store) (t : Table) (id : Nat) :
    (s.pushTable t).table id = s.table id ∨ (s.pushTable t).table id = t := by
  simp only [pushTable, table, Array.getD_eq_getD_getElem?, Array.getElem?_push]
  split
  · exact .inr rfl
  · exact .inl rfl

/-! ## Stores of maps -/

/-- All tables are well-formed. -/
def Valid (s : Store) : Prop :=
  ∀ id, (s.table id).Valid

theorem Valid.modifyTable (h : s.Valid) (id : Nat) {f : Table → Table} (hf : ∀ x : Table, x.Valid → (f x).Valid) :
    (s.modifyTable id f).Valid := by
  intro id'
  rcases table_modifyTable s id f id' with ht | ht <;> rw [ht]
  · exact h id'
  · exact hf _ (h id')

theorem Valid.pushTable (h : s.Valid) {x : Table} (hx : x.Valid) : (s.pushTable x).Valid := by
  intro id
  rcases table_pushTable s x id with hid | hid <;> rw [hid]
  · exact h id
  · exact hx

theorem Valid.rawSet (h : s.Valid) (id : Nat) (k v : Value) : (s.rawSet id k v).Valid :=
  h.modifyTable id fun _ hx => hx.set k v

/-- A table gives for a key what was last set for it. -/
theorem rawGet_rawSet (h : (s.table t).Valid) (ht : t < s.tables.size) (k v k' : Value) :
    (s.rawSet t k v).rawGet t k' = if k'.toKey = k.toKey then v else s.rawGet t k' := by
  rw [rawGet, table_rawSet_self ht, Table.get_set h, rawGet]

/-- Two stores have the same tables up to the value of one key of one table. -/
structure ChangesOnly (s : Store) (t : Nat) (k : Value) (s' : Store) : Prop where
  size : s'.tables.size = s.tables.size
  metatable : ∀ t', (s'.table t').metatable = (s.table t').metatable
  rawGet : ∀ t' k', t' ≠ t ∨ k'.toKey ≠ k.toKey → s'.rawGet t' k' = s.rawGet t' k'

theorem Valid.changesOnly_rawSet (h : s.Valid) (t : Nat) (k v : Value) : s.ChangesOnly t k (s.rawSet t k v) where
  size := size_rawSet
  metatable _ := metatable_rawSet
  rawGet t' k' hother := by
    by_cases htable : t' = t
    · subst htable
      by_cases ht : t' < s.tables.size
      · rw [rawGet_rawSet (h t') ht, if_neg (hother.resolve_left fun hne => hne rfl)]
      · rw [Store.rawGet, table_rawSet_of_le (Nat.le_of_not_lt ht), Store.rawGet]
    · rw [Store.rawGet, table_rawSet_of_ne htable, Store.rawGet]

/-! ## What a table holds -/

/-- The values of all keys in their stored form; a key without an entry has `nil`. -/
abbrev Entries := Value → Value

/-- The entries with the value of a key set. -/
def Entries.set (e : Entries) (k v : Value) : Entries :=
  Function.update e k.toKey v

section

variable (e : Entries) (k v : Value)

theorem Entries.set_self : e.set k v k.toKey = v :=
  Function.update_self _ _ _

theorem Entries.set_of_ne {k' : Value} (h : k' ≠ k.toKey) : e.set k v k' = e k' :=
  Function.update_of_ne h _ _

theorem Entries.set_set (w : Value) : (e.set k v).set k w = e.set k w :=
  Function.update_idem _ _ _

end

/-- There is such a table, and it holds these entries. -/
structure Holds (s : Store) (t : Nat) (e : Entries) : Prop where
  bound : t < s.tables.size
  valid : (s.table t).Valid
  getKey : ∀ k, (s.table t).getKey k = e k

variable {e : Entries}

theorem Holds.rawGet (h : s.Holds t e) (k : Value) : s.rawGet t k = e k.toKey :=
  h.getKey k.toKey

theorem Holds.set (h : s.Holds t e) (k v : Value) : (s.rawSet t k v).Holds t (e.set k v) where
  bound := by simpa using h.bound
  valid := by
    rw [table_rawSet_self h.bound]
    exact h.valid.set k v
  getKey k' := by
    rw [table_rawSet_self h.bound, Entries.set, Function.update_apply, ← h.getKey]
    exact (Table.updates_setKey h.valid k.toKey v).getKey k'

/-- A table that stays as it is holds what it held. -/
theorem Holds.of_table_eq (h : s.Holds t e) (htable : s'.table t = s.table t)
    (hsize : s.tables.size ≤ s'.tables.size) : s'.Holds t e :=
  ⟨Nat.lt_of_lt_of_le h.bound hsize, htable ▸ h.valid, htable ▸ h.getKey⟩

theorem Holds.set_of_ne (h : s.Holds t e) (hne : t ≠ t') (k v : Value) : (s.rawSet t' k v).Holds t e :=
  h.of_table_eq (table_rawSet_of_ne hne) (Nat.le_of_eq size_rawSet.symm)

theorem holds_pushTable {x : Table} (hx : x.Valid) : (s.pushTable x).Holds s.tables.size x.getKey where
  bound := by simp
  valid := by rwa [table_pushTable_self]
  getKey k := by rw [table_pushTable_self]

/-! ## What reads through -/

/-- The table `t` has the metatable `mt`, whose functions are those of the environment `n`. -/
structure ReadsThrough (s : Store) (t mt n : Nat) : Prop where
  metatable : (s.table t).metatable = some mt
  bound : mt < s.tables.size
  ne_globals : mt ≠ globals
  plain : (s.table mt).metatable = none
  index : s.rawGet mt (.str Operation.indexKey) = .builtin (.readThrough n)
  newindex : s.rawGet mt (.str Operation.newindexKey) = .builtin (.writeLocal n)

variable {mt n : Nat}

theorem ReadsThrough.of_table_eq (h : s.ReadsThrough t mt n)
    (hmetatable : (s'.table t).metatable = (s.table t).metatable) (htable : s'.table mt = s.table mt)
    (hsize : s.tables.size ≤ s'.tables.size) : s'.ReadsThrough t mt n where
  metatable := hmetatable.trans h.metatable
  bound := Nat.lt_of_lt_of_le h.bound hsize
  ne_globals := h.ne_globals
  plain := by rw [htable, h.plain]
  index := by rw [← h.index, Store.rawGet, Store.rawGet, htable]
  newindex := by rw [← h.newindex, Store.rawGet, Store.rawGet, htable]

/-- Writing to a table that is not the metatable leaves what reads through. -/
theorem ReadsThrough.set (h : s.ReadsThrough t mt n) (hne : mt ≠ t') (k v : Value) :
    (s.rawSet t' k v).ReadsThrough t mt n :=
  h.of_table_eq metatable_rawSet (table_rawSet_of_ne hne) (Nat.le_of_eq size_rawSet.symm)

/-! ## The globals at the beginning -/

/-- The globals are a table without a metatable. -/
structure PlainGlobals (s : Store) : Prop where
  bound : globals < s.tables.size
  valid : (s.table globals).Valid
  metatable : (s.table globals).metatable = none

theorem PlainGlobals.push (h : s.PlainGlobals) (x : Table) : (s.pushTable x).PlainGlobals := by
  have htable := table_pushTable_of_lt h.bound x
  exact ⟨by simp [globals], htable ▸ h.valid, htable ▸ h.metatable⟩

theorem PlainGlobals.set (h : s.PlainGlobals) (k v : Value) : (s.rawSet globals k v).PlainGlobals := by
  refine ⟨by simpa using h.bound, ?_, metatable_rawSet.trans h.metatable⟩
  rw [table_rawSet_self h.bound]
  exact h.valid.set k v

theorem plainGlobals_first {x : Table} (hv : x.Valid) (hm : x.metatable = none) : (pushTable {} x).PlainGlobals :=
  ⟨by simp [globals], hv, hm⟩

theorem plainGlobals_libraries (h : s.PlainGlobals) (ls : List (String × List LibFunction)) :
    (ls.foldl (fun s l => Library.addLibrary s l.1 l.2) s).PlainGlobals := by
  induction ls generalizing s with
  | nil => exact h
  | cons l ls ih => exact ih ((h.push _).set _ _)

theorem plainGlobals_metatables (h : s.PlainGlobals) : (Library.addMetatables s).PlainGlobals := by
  obtain ⟨hb, hv, hm⟩ := ((h.push _).push _).push _
  exact ⟨hb, hv, hm⟩

end Store

open Store

namespace Library

/-- A table with named entries is well-formed and has no metatable. -/
theorem tableOf_valid (es : List (String × Value)) : (tableOf es).Valid ∧ (tableOf es).metatable = none := by
  have hfold : ∀ t : Table, t.Valid → t.metatable = none →
      (es.foldl (fun t e => t.set (.ofString e.1) e.2) t).Valid ∧
        (es.foldl (fun t e => t.set (.ofString e.1) e.2) t).metatable = none := by
    induction es with
    | nil => exact fun t hv hm => ⟨hv, hm⟩
    | cons e es ih => exact fun t hv hm => ih _ (hv.set _ _) ((t.metatable_set _ _).trans hm)
  exact hfold {} (Table.valid_empty none) rfl

theorem plainGlobals_initialStore : initialStore.PlainGlobals := by
  obtain ⟨hv, hm⟩ := tableOf_valid (("_VERSION", .ofString "Lua 5.4") :: functionEntries baseFunctions)
  exact plainGlobals_metatables (plainGlobals_libraries ((plainGlobals_first hv hm).set _ _) libraries)

end Library

end Scratchpad.Lua
