import Mathlib.Data.List.Nodup
import Scratchpad.Proofs.Access
import Scratchpad.Proofs.Lua.Store
import Scratchpad.Registry

/-!
# Environments are layers over the globals

`Host` is a registry with its interpreter, and `Step` lists what can be done to them from outside: with the environments
of surfaces and with the entries of tables. `Layers` is the same without tables that refer to tables: the entries of the
globals, and for each surface that has an environment its own entries. A step finds and changes in a host what it finds
and changes in the layers (`Refines.step`). Main statement: `observe_eq`.
-/

namespace Scratchpad.Environments

open Lua
open Lua.Store (Entries)

/-! ## Steps -/

/-- The table that a step reads or writes: that of the globals, or the environment that a surface has then. -/
inductive Target where
  | globals
  | environment (id : SurfaceId)

/-- What can be done from outside. -/
inductive Step where
  | getOrCreate (id : SurfaceId)
  | reset (id : SurfaceId)
  | forget (id : SurfaceId)
  | touch (id : SurfaceId)
  | rawGet (on : Target) (k : Lua.Value)
  | rawSet (on : Target) (k v : Lua.Value)
  | index (on : Target) (k : Lua.Value)
  | setIndex (on : Target) (k v : Lua.Value)

/-- What is seen of a step: its value or its error, and after it the environments of all surfaces and the surface that
was used last. -/
structure Observation where
  result : Except Fault Inspect.Value
  environments : List (SurfaceId × Nat)
  active : Option SurfaceId

/-! ## The host -/

/-- The environments with the tables that they are. -/
structure Host where
  registry : Registry := {}
  interpreter : Interpreter := {}

namespace Host

def table? (h : Host) : Target → Option Nat
  | .globals => some Store.globals
  | .environment id => h.registry.find? id

/-- Does something with a table. For a surface without an environment there is nothing to do. -/
def access (h : Host) (on : Target)
    (f : Interpreter → Lua.Value → Except Fault Lua.Value × Interpreter) : Except Fault Lua.Value × Host :=
  match h.table? on with
  | some t =>
    let (r, interpreter) := f h.interpreter (.table t)
    (r, { h with interpreter })
  | none => (.ok .nil, h)

def step (h : Host) : Step → Except Fault Lua.Value × Host
  | .getOrCreate id =>
    let (env, _, registry, interpreter) := h.registry.getOrCreate h.interpreter id
    (.ok (.table env), { registry, interpreter })
  | .reset id => (.ok .nil, { h with registry := h.registry.reset id })
  | .forget id => (.ok .nil, { h with registry := h.registry.forget id })
  | .touch id => (.ok .nil, { h with registry := h.registry.touch id })
  | .rawGet on k => h.access on fun i t => i.rawGet t k
  | .rawSet on k v => h.access on fun i t =>
    -- The table that the function returns is dropped.
    let (r, i) := i.rawSet t k v
    (r.map fun _ => .nil, i)
  | .index on k => h.access on fun i t => i.index t k
  | .setIndex on k v => h.access on fun i t => i.setIndex t k v

/-- What is seen of some steps. -/
def observe (h : Host) : List Step → List Observation
  | [] => []
  | s :: steps =>
    let (r, h) := h.step s
    ⟨r.map h.interpreter.shown, h.registry.environments, h.registry.active⟩ :: h.observe steps

end Host

/-! ## Layers -/

/-- An environment: the number of its table, and the entries that it has itself. -/
structure Layer where
  table : Nat
  entries : Entries

/-- The globals and the environments without metatables. -/
structure Layers where
  globals : Entries
  environments : List (SurfaceId × Layer) := []
  active : Option SurfaceId := none
  /-- The number of the table that the next environment is. -/
  next : Nat

namespace Layers

/-- Nothing but what the library has. -/
def initial : Layers where
  globals := (Library.initialStore.table Store.globals).getKey
  next := Library.initialStore.tables.size + 1

def layer? (l : Layers) : Target → Option Layer
  | .globals => some ⟨Store.globals, l.globals⟩
  | .environment id => l.environments.lookup id

/-- Sets an entry of one layer. -/
def put (l : Layers) (on : Target) (k v : Lua.Value) : Layers :=
  match on with
  | .globals => { l with globals := l.globals.set k v }
  | .environment id => { l with
      environments := l.environments.map fun e =>
        if e.1 = id then (id, { e.2 with entries := e.2.entries.set k v }) else e }

/-- Does something with the entries of a layer. For a surface without an environment there is nothing to do. -/
def access (l : Layers) (on : Target) (f : Entries → Except Fault Lua.Value × Layers) :
    Except Fault Lua.Value × Layers :=
  match l.layer? on with
  | some x => f x.entries
  | none => (.ok .nil, l)

/-- Sets an entry of a layer, unless the key cannot be one. -/
def write (l : Layers) (on : Target) (k v : Lua.Value) : Except Fault Lua.Value × Layers :=
  match k.badKey? with
  | some message => (.error ⟨message⟩, l)
  | none => (.ok .nil, l.put on k v)

/-- What a layer gives for a key, or else the globals. -/
def through (own globals : Entries) (k : Lua.Value) : Lua.Value :=
  if (own k).isNil then globals k else own k

/-- An environment that holds nothing but itself. -/
def fresh (table : Nat) : Layer where
  table
  entries := Entries.set (fun _ => .nil) Interpreter.envKey (.table table)

/-- Drops the environment of a surface. -/
def drop (l : Layers) (id : SurfaceId) : Layers :=
  { l with environments := l.environments.filter fun e => e.1 ≠ id }

/-- A step on the layers. A raw write fails for `nil` and for NaN; with metamethods `nil` is a key of its own, and only
NaN fails. -/
def step (l : Layers) : Step → Except Fault Lua.Value × Layers
  | .getOrCreate id =>
    match l.environments.lookup id with
    | some x => (.ok (.table x.table), l.put (.environment id) Interpreter.envKey (.table x.table))
    | none => (.ok (.table l.next), { l with
        environments := l.environments ++ [(id, fresh l.next)]
        -- The metatable takes a number, too.
        next := l.next + 2 })
  | .reset id => (.ok .nil, l.drop id)
  | .forget id => (.ok .nil, { l.drop id with active := if l.active = some id then none else l.active })
  | .touch id => (.ok .nil, { l with active := some id })
  | .rawGet on k => l.access on fun e => (.ok (e k.toKey), l)
  | .rawSet on k v => l.access on fun _ => l.write on k v
  | .index on k => l.access on fun e => (.ok (through e l.globals (Interpreter.orAbsent k).toKey), l)
  | .setIndex on k v => l.access on fun _ => l.write on (Interpreter.orAbsent k) v

/-- What is seen of some steps. No step makes a coroutine, so that values are shown as in the beginning. -/
def observe (l : Layers) : List Step → List Observation
  | [] => []
  | s :: steps =>
    let (r, l) := l.step s
    ⟨r.map ({} : Interpreter).shown, l.environments.map fun e => (e.1, e.2.table), l.active⟩ :: l.observe steps

end Layers

/-! ## The layers of a host -/

/-- The host has the tables of the layers with their entries, the globals are plain, and all environments read through
to them. No table belongs to two surfaces. -/
structure Refines (h : Host) (l : Layers) : Prop where
  threads : h.interpreter.threads = ({} : Interpreter).threads
  active : h.registry.active = l.active
  environments : h.registry.environments = l.environments.map fun e => (e.1, e.2.table)
  globals : h.interpreter.store.Holds Store.globals l.globals
  plain : (h.interpreter.store.table Store.globals).metatable = none
  holds : ∀ e ∈ l.environments, h.interpreter.store.Holds e.2.table e.2.entries
  through : ∀ e ∈ l.environments, ∃ mt n, h.interpreter.store.ReadsThrough e.2.table mt n
  surfaces : (h.registry.environments.map Prod.fst).Nodup
  tables : (h.registry.environments.map Prod.snd).Nodup
  next : l.next = h.interpreter.store.tables.size + 1

theorem refines_initial : Refines {} Layers.initial := by
  obtain ⟨hb, hv, hm⟩ := Library.plainGlobals_initialStore
  exact ⟨rfl, rfl, rfl, ⟨hb, hv, fun _ => rfl⟩, hm, nofun, nofun, List.nodup_nil, List.nodup_nil, rfl⟩

section

variable {x : Layer} {id : SurfaceId}

theorem lookup_map_table (es : List (SurfaceId × Layer)) (id : SurfaceId) :
    (es.map fun e => (e.1, e.2.table)).lookup id = (es.lookup id).map Layer.table := by
  induction es with
  | nil => rfl
  | cons e es ih =>
    rw [List.map_cons, List.lookup_cons, List.lookup_cons, ih]
    split <;> rfl

theorem mem_of_lookup {es : List (SurfaceId × Layer)} (hx : es.lookup id = some x) : (id, x) ∈ es := by
  obtain ⟨as, bs, rfl, -⟩ := List.lookup_eq_some_iff.1 hx
  exact List.mem_append_right _ List.mem_cons_self

end

namespace Layers

variable {l : Layers} {on : Target} {x : Layer} {k v : Lua.Value} {e : SurfaceId × Layer}

/-- Setting an entry keeps the tables of all surfaces. -/
theorem map_table_put (l : Layers) (on : Target) (k v : Lua.Value) :
    ((l.put on k v).environments.map fun e => (e.1, e.2.table)) = l.environments.map fun e => (e.1, e.2.table) := by
  cases on with
  | globals => rfl
  | environment id =>
    rw [put, List.map_map]
    refine List.map_congr_left fun e _ => ?_
    rw [Function.comp_apply]
    split
    · rename_i he
      rw [← he]
    · rfl

/-- An environment is another one than that which was written to, or that one. -/
theorem mem_put (he : e ∈ (l.put on k v).environments) : (e ∈ l.environments ∧ on ≠ .environment e.1) ∨
    on = .environment e.1 ∧ ∃ y, (e.1, y) ∈ l.environments ∧ e.2 = { y with entries := y.entries.set k v } := by
  cases on with
  | globals => exact .inl ⟨he, nofun⟩
  | environment id =>
    obtain ⟨e', he', rfl⟩ := List.mem_map.1 he
    split
    · rename_i hid
      subst hid
      exact .inr ⟨rfl, e'.2, he', rfl⟩
    · rename_i hid
      exact .inl ⟨he', fun heq => hid (Target.environment.inj heq).symm⟩

end Layers

namespace Refines

variable {h : Host} {l : Layers} {on : Target} {x : Layer} {e e' : SurfaceId × Layer}

theorem find? (hr : Refines h l) (id : SurfaceId) :
    h.registry.find? id = (l.environments.lookup id).map Layer.table := by
  rw [Registry.find?, hr.environments, lookup_map_table]

theorem table? (hr : Refines h l) (on : Target) : h.table? on = (l.layer? on).map Layer.table := by
  cases on with
  | globals => rfl
  | environment id => exact hr.find? id

theorem layer (hr : Refines h l) (hx : l.layer? on = some x) : h.interpreter.store.Holds x.table x.entries := by
  cases on with
  | globals =>
    obtain rfl := Option.some.inj hx
    exact hr.globals
  | environment id => exact hr.holds _ (mem_of_lookup hx)

/-! ### No table is shared -/

theorem eq_of_surface (hr : Refines h l) (he : e ∈ l.environments) (he' : e' ∈ l.environments) (heq : e.1 = e'.1) :
    e = e' := by
  have hnodup := hr.surfaces
  rw [hr.environments, List.map_map] at hnodup
  exact List.inj_on_of_nodup_map hnodup he he' heq

theorem eq_of_table (hr : Refines h l) (he : e ∈ l.environments) (he' : e' ∈ l.environments)
    (heq : e.2.table = e'.2.table) : e = e' := by
  have hnodup := hr.tables
  rw [hr.environments, List.map_map] at hnodup
  exact List.inj_on_of_nodup_map hnodup he he' heq

theorem ne_globals (hr : Refines h l) (he : e ∈ l.environments) : e.2.table ≠ Store.globals := by
  intro heq
  obtain ⟨mt, n, hthrough⟩ := hr.through e he
  have hm := hthrough.metatable
  rw [heq, hr.plain] at hm
  cases hm

/-- Every other environment is another table. -/
theorem ne_table (hr : Refines h l) (hx : l.layer? on = some x) (he : e ∈ l.environments)
    (hne : on ≠ .environment e.1) : e.2.table ≠ x.table := by
  cases on with
  | globals =>
    obtain rfl := Option.some.inj hx
    exact hr.ne_globals he
  | environment id =>
    intro heq
    obtain rfl := hr.eq_of_table he (mem_of_lookup hx) heq
    exact hne rfl

/-- The metatable of an environment is not a table that a step writes to. -/
theorem ne_metatable (hr : Refines h l) (hx : l.layer? on = some x) {t mt n : Nat}
    (hthrough : h.interpreter.store.ReadsThrough t mt n) : mt ≠ x.table := by
  cases on with
  | globals =>
    obtain rfl := Option.some.inj hx
    exact hthrough.ne_globals
  | environment id =>
    obtain ⟨mt', n', hthrough'⟩ := hr.through _ (mem_of_lookup hx)
    rintro rfl
    have hm := hthrough'.metatable
    rw [hthrough.plain] at hm
    cases hm

/-! ### Reading and writing -/

/-- The globals have no metamethods, and environments have their own. -/
theorem metamethod (hr : Refines h l) (hx : l.layer? on = some x) :
    (x.table = Store.globals ∧ ∀ event, h.interpreter.store.metamethod (.table x.table) event = .nil) ∨
      ∃ n, h.interpreter.store.metamethod (.table x.table) Operation.indexKey = .builtin (.readThrough n) ∧
        h.interpreter.store.metamethod (.table x.table) Operation.newindexKey = .builtin (.writeLocal n) := by
  simp only [Store.metamethod, Store.metatable?]
  cases on with
  | globals =>
    obtain rfl := Option.some.inj hx
    exact .inl ⟨rfl, fun event => by rw [hr.plain]⟩
  | environment id =>
    obtain ⟨mt, n, hthrough⟩ := hr.through _ (mem_of_lookup hx)
    rw [hthrough.metatable]
    exact .inr ⟨n, hthrough.index, hthrough.newindex⟩

/-- A read with metamethods sees the layer, or else the globals. -/
theorem index (hr : Refines h l) (hx : l.layer? on = some x) (k : Lua.Value) :
    h.interpreter.index (.table x.table) k =
      (.ok (Layers.through x.entries l.globals (Interpreter.orAbsent k).toKey), h.interpreter) := by
  rw [Layers.through, ← (hr.layer hx).rawGet, ← hr.globals.rawGet]
  by_cases hnil : (h.interpreter.store.rawGet x.table (Interpreter.orAbsent k)).isNil = true
  · rw [if_pos hnil]
    rcases hr.metamethod hx with ⟨hglobals, hnone⟩ | ⟨n, hindex, -⟩
    · rw [← hglobals]
      refine Interpreter.index_of_isNil ?_
      rw [Interpreter.handler_of_isNil hnil, hnone]
      rfl
    · exact Interpreter.index_of_readThrough ((Interpreter.handler_of_isNil hnil _).trans hindex)
  · rw [if_neg hnil]
    exact Interpreter.index_of_isNil (Interpreter.isNil_handler hnil _)

/-- A write with metamethods changes the layer itself. -/
theorem setIndex (hr : Refines h l) (hx : l.layer? on = some x) (k v : Lua.Value) :
    h.interpreter.setIndex (.table x.table) k v = h.interpreter.afterSet x.table (Interpreter.orAbsent k) v := by
  by_cases hnil : (h.interpreter.store.rawGet x.table (Interpreter.orAbsent k)).isNil = true
  · rcases hr.metamethod hx with ⟨-, hnone⟩ | ⟨n, -, hnewindex⟩
    · refine Interpreter.setIndex_of_isNil ?_
      rw [Interpreter.handler_of_isNil hnil, hnone]
      rfl
    · exact Interpreter.setIndex_of_writeLocal ((Interpreter.handler_of_isNil hnil _).trans hnewindex)
  · exact Interpreter.setIndex_of_isNil (Interpreter.isNil_handler hnil _)

/-- Both sides set an entry of the same layer. -/
theorem put (hr : Refines h l) (hx : l.layer? on = some x) (k v : Lua.Value) :
    Refines { h with interpreter := { h.interpreter with store := h.interpreter.store.rawSet x.table k v } }
      (l.put on k v) where
  threads := hr.threads
  active := by cases on <;> exact hr.active
  environments := by rw [hr.environments, Layers.map_table_put]
  globals := by
    cases on with
    | globals =>
      obtain rfl := Option.some.inj hx
      exact hr.globals.set k v
    | environment id => exact hr.globals.set_of_ne (hr.ne_globals (mem_of_lookup hx)).symm k v
  plain := Store.metatable_rawSet.trans hr.plain
  holds e he := by
    rcases Layers.mem_put he with ⟨hmem, hne⟩ | ⟨rfl, y, hmem, hy⟩
    · exact (hr.holds e hmem).set_of_ne (hr.ne_table hx hmem hne) k v
    · obtain ⟨-, rfl⟩ := Prod.mk.inj (hr.eq_of_surface hmem (mem_of_lookup hx) rfl)
      rw [hy]
      exact (hr.holds _ hmem).set k v
  through e he := by
    have hbefore : ∃ e' ∈ l.environments, e'.2.table = e.2.table := by
      rcases Layers.mem_put he with ⟨hmem, -⟩ | ⟨-, y, hmem, hy⟩
      · exact ⟨e, hmem, rfl⟩
      · exact ⟨_, hmem, by rw [hy]⟩
    obtain ⟨e', hmem, htable⟩ := hbefore
    obtain ⟨mt, n, hthrough⟩ := hr.through e' hmem
    rw [← htable]
    exact ⟨mt, n, hthrough.set (hr.ne_metatable hx hthrough) k v⟩
  surfaces := hr.surfaces
  tables := hr.tables
  next := by
    have hnext : (l.put on k v).next = l.next := by cases on <;> rfl
    rw [hnext, hr.next, Store.size_rawSet]

/-! ### Environments that come and go -/

theorem drop (hr : Refines h l) (id : SurfaceId) : Refines { h with registry := h.registry.reset id } (l.drop id) where
  threads := hr.threads
  active := hr.active
  environments := by
    rw [Registry.reset, hr.environments, List.filter_map]
    rfl
  globals := hr.globals
  plain := hr.plain
  holds e he := hr.holds e (List.mem_of_mem_filter he)
  through e he := hr.through e (List.mem_of_mem_filter he)
  surfaces := hr.surfaces.sublist (List.filter_sublist.map _)
  tables := hr.tables.sublist (List.filter_sublist.map _)
  next := hr.next

theorem activate (hr : Refines h l) (id : Option SurfaceId) :
    Refines { h with registry := { h.registry with active := id } } { l with active := id } :=
  ⟨hr.threads, rfl, hr.environments, hr.globals, hr.plain, hr.holds, hr.through, hr.surfaces, hr.tables, hr.next⟩

end Refines

/-! ## A new environment -/

/-- The metatable of an environment. -/
def metatableOf (n : Nat) : Table :=
  Library.tableOf [("__index", .builtin (.readThrough n)), ("__newindex", .builtin (.writeLocal n))]

/-- The store with one more environment, whose number is one more than that of its metatable. -/
def withEnvironment (s : Lua.Store) (n : Nat) : Lua.Store :=
  ((s.pushTable (metatableOf n)).pushTable { metatable := some s.tables.size }).rawSet (s.tables.size + 1)
    Interpreter.envKey (.table (s.tables.size + 1))

theorem newEnvironment_eq (i : Interpreter) : i.newEnvironment = (i.store.tables.size + 1, { i with
    store := withEnvironment i.store i.environments, environments := i.environments + 1 }) := by
  rw [withEnvironment, ← Store.size_pushTable (metatableOf i.environments)]
  rfl

theorem get_metatableOf (n : Nat) : (metatableOf n).get (.str Operation.indexKey) = .builtin (.readThrough n) ∧
    (metatableOf n).get (.str Operation.newindexKey) = .builtin (.writeLocal n) := by
  have hempty : ({} : Table).Valid := Table.valid_empty none
  have hne : ¬ (Lua.Value.str Operation.indexKey).toKey = (Lua.Value.ofString "__newindex").toKey := by decide
  have hset : metatableOf n = (({} : Table).set (.ofString "__index") (.builtin (.readThrough n))).set
      (.ofString "__newindex") (.builtin (.writeLocal n)) := by
    simp only [metatableOf, Library.tableOf, List.foldl]
  rw [hset, Table.get_set (hempty.set _ _), Table.get_set (hempty.set _ _), Table.get_set hempty, if_neg hne]
  exact ⟨if_pos rfl, if_pos rfl⟩

section

variable {s : Lua.Store} {t mt m n : Nat} {e : Entries}

@[simp]
theorem size_withEnvironment : (withEnvironment s n).tables.size = s.tables.size + 2 := by
  simp [withEnvironment]

/-- The tables that were there stay as they are. -/
theorem table_withEnvironment (ht : t < s.tables.size) : (withEnvironment s n).table t = s.table t := by
  rw [withEnvironment, Store.table_rawSet_of_ne (Nat.ne_of_lt (Nat.lt_succ_of_lt ht)),
    Store.table_pushTable_of_lt (by simpa using Nat.lt_succ_of_lt ht), Store.table_pushTable_of_lt ht]

theorem le_size_withEnvironment : s.tables.size ≤ (withEnvironment s n).tables.size := by
  simp

theorem holds_withEnvironment (h : s.Holds t e) : (withEnvironment s n).Holds t e :=
  h.of_table_eq (table_withEnvironment h.bound) le_size_withEnvironment

theorem readsThrough_withEnvironment (h : s.ReadsThrough t mt m) (ht : t < s.tables.size) :
    (withEnvironment s n).ReadsThrough t mt m :=
  h.of_table_eq (by rw [table_withEnvironment ht]) (table_withEnvironment h.bound) le_size_withEnvironment

/-- The new environment holds nothing but itself. -/
theorem holds_fresh : (withEnvironment s n).Holds (s.tables.size + 1) (Layers.fresh (s.tables.size + 1)).entries := by
  have hnil : ({ metatable := some s.tables.size } : Table).getKey = fun _ => .nil :=
    funext fun k => Table.getKey_empty k
  have hholds := Store.holds_pushTable (s := s.pushTable (metatableOf n))
    (Table.valid_empty (some s.tables.size))
  rw [Store.size_pushTable, hnil] at hholds
  exact hholds.set _ _

theorem metatable_fresh : ((withEnvironment s n).table (s.tables.size + 1)).metatable = some s.tables.size := by
  rw [withEnvironment, Store.metatable_rawSet, ← Store.size_pushTable (metatableOf n), Store.table_pushTable_self]

/-- The metatable of the new environment. -/
theorem table_metatable_fresh : (withEnvironment s n).table s.tables.size = metatableOf n := by
  rw [withEnvironment, Store.table_rawSet_of_ne (Nat.ne_of_lt (Nat.lt_succ_self _)),
    Store.table_pushTable_of_lt (by simp), Store.table_pushTable_self]

theorem readsThrough_fresh (hs : Store.globals < s.tables.size) :
    (withEnvironment s n).ReadsThrough (s.tables.size + 1) s.tables.size n where
  metatable := metatable_fresh
  bound := by simp
  ne_globals := Nat.ne_of_gt hs
  plain := by
    rw [table_metatable_fresh]
    exact (Library.tableOf_valid _).2
  index := by rw [Store.rawGet, table_metatable_fresh, (get_metatableOf n).1]
  newindex := by rw [Store.rawGet, table_metatable_fresh, (get_metatableOf n).2]

end

namespace Refines

variable {h : Host} {l : Layers} {id : SurfaceId} {k : Lua.Value}

/-- The tables of the environments are older than the next one. -/
theorem lt_size (hr : Refines h l) {e : SurfaceId × Nat} (he : e ∈ h.registry.environments) :
    e.2 < h.interpreter.store.tables.size := by
  rw [hr.environments] at he
  obtain ⟨e', he', rfl⟩ := List.mem_map.1 he
  exact (hr.holds e' he').bound

theorem not_mem_surfaces (hr : Refines h l) (hid : l.environments.lookup id = none) :
    id ∉ h.registry.environments.map Prod.fst := by
  intro hmem
  obtain ⟨e, he, heq⟩ := List.mem_map.1 hmem
  have hfind := hr.find? id
  rw [hid] at hfind
  have hne := List.lookup_eq_none_iff.1 hfind e he
  rw [heq] at hne
  simp at hne

/-- Both sides make the same environment. -/
theorem create (hr : Refines h l) (hid : l.environments.lookup id = none) :
    Refines
      { registry := { h.registry with
          environments := h.registry.environments ++ [(id, h.interpreter.newEnvironment.1)] }
        interpreter := h.interpreter.newEnvironment.2 }
      { l with environments := l.environments ++ [(id, Layers.fresh l.next)], next := l.next + 2 } := by
  rw [newEnvironment_eq, hr.next]
  exact
    { threads := hr.threads
      active := hr.active
      environments := by
        rw [List.map_append, ← hr.environments]
        rfl
      globals := holds_withEnvironment hr.globals
      plain := by rw [table_withEnvironment hr.globals.bound, hr.plain]
      holds := fun e he => by
        rcases List.mem_append.1 he with he | he
        · exact holds_withEnvironment (hr.holds e he)
        · rw [List.mem_singleton.1 he]
          exact holds_fresh
      through := fun e he => by
        rcases List.mem_append.1 he with he | he
        · obtain ⟨mt, n, hthrough⟩ := hr.through e he
          exact ⟨mt, n, readsThrough_withEnvironment hthrough (hr.holds e he).bound⟩
        · rw [List.mem_singleton.1 he]
          exact ⟨_, _, readsThrough_fresh hr.globals.bound⟩
      surfaces := by
        rw [List.map_append]
        exact hr.surfaces.append (List.nodup_singleton _) (List.disjoint_singleton.2 (hr.not_mem_surfaces hid))
      tables := by
        rw [List.map_append]
        refine hr.tables.append (List.nodup_singleton _) (List.disjoint_singleton.2 fun hmem => ?_)
        obtain ⟨e, he, heq⟩ := List.mem_map.1 hmem
        have hlt := hr.lt_size he
        simp only [heq] at hlt
        omega
      next := by rw [size_withEnvironment] }

/-! ### Steps -/

/-- A table in the host and its layer are accessed alike if they are when there is one. -/
theorem access (hr : Refines h l) (on : Target)
    {f : Interpreter → Lua.Value → Except Fault Lua.Value × Interpreter} {g : Entries → Except Fault Lua.Value × Layers}
    (hf : ∀ x, l.layer? on = some x → (f h.interpreter (.table x.table)).1 = (g x.entries).1 ∧
      Refines { h with interpreter := (f h.interpreter (.table x.table)).2 } (g x.entries).2) :
    (h.access on f).1 = (l.access on g).1 ∧ Refines (h.access on f).2 (l.access on g).2 := by
  rw [Host.access, hr.table?, Layers.access]
  rcases hx : l.layer? on with _ | x
  · exact ⟨rfl, hr⟩
  · exact hf x hx

/-- A table is written as its layer is: a key that cannot be one changes nothing. -/
theorem write (hr : Refines h l) {on : Target} {x : Layer} (hx : l.layer? on = some x) (k v : Lua.Value) :
    (h.interpreter.afterSet x.table k v).1 = (l.write on k v).1 ∧
      Refines { h with interpreter := (h.interpreter.afterSet x.table k v).2 } (l.write on k v).2 := by
  rw [Interpreter.afterSet, Layers.write]
  rcases hk : k.badKey? with _ | message
  · exact ⟨rfl, hr.put hx k v⟩
  · exact ⟨congrArg Except.error (Interpreter.fault_badKey hk), hr⟩

/-- A step gives the same on both sides, and the sides still belong together. -/
theorem step (hr : Refines h l) (s : Step) :
    (h.step s).1 = (l.step s).1 ∧ Refines (h.step s).2 (l.step s).2 := by
  cases s with
  | getOrCreate id =>
    have hfind := hr.find? id
    rw [Host.step, Registry.getOrCreate, Layers.step]
    rcases hid : l.environments.lookup id with _ | x
    · rw [hid] at hfind
      rw [hfind]
      have hnumber : h.interpreter.newEnvironment.1 = l.next := by rw [newEnvironment_eq, hr.next]
      exact ⟨congrArg (fun n => (.ok (.table n) : Except Fault Lua.Value)) hnumber, hr.create hid⟩
    · rw [hid] at hfind
      rw [hfind]
      have hx : l.layer? (.environment id) = some x := hid
      exact ⟨rfl, hr.put hx _ _⟩
  | reset id => exact ⟨rfl, hr.drop id⟩
  | forget id =>
    refine ⟨rfl, ?_⟩
    have hforget := (hr.drop id).activate (if l.active = some id then none else l.active)
    rw [← hr.active] at hforget
    rw [Layers.step, ← hr.active]
    exact hforget
  | touch id => exact ⟨rfl, hr.activate (some id)⟩
  | rawGet on k =>
    refine hr.access on fun x hx => ?_
    rw [Interpreter.rawGet_table, (hr.layer hx).rawGet]
    exact ⟨rfl, hr⟩
  | rawSet on k v =>
    refine hr.access on fun x hx => ?_
    rw [Interpreter.rawSet_table]
    dsimp only
    rw [Interpreter.afterSet_map]
    exact hr.write hx k v
  | index on k =>
    refine hr.access on fun x hx => ?_
    rw [hr.index hx]
    exact ⟨rfl, hr⟩
  | setIndex on k v =>
    refine hr.access on fun x hx => ?_
    rw [hr.setIndex hx]
    exact hr.write hx _ v

end Refines

/-! ## Runs -/

theorem Refines.observe {h : Host} {l : Layers} (hr : Refines h l) (steps : List Step) :
    h.observe steps = l.observe steps := by
  induction steps generalizing h l with
  | nil => rfl
  | cons s steps ih =>
    obtain ⟨hresult, hr'⟩ := hr.step s
    rw [Host.observe, Layers.observe]
    dsimp only
    rw [hresult, Interpreter.shown_eq hr'.threads, hr'.environments, hr'.active, ih hr']

/-- No two surfaces have the same table, and none has that of the globals. -/
theorem Refines.nodup {h : Host} {l : Layers} (hr : Refines h l) :
    (Store.globals :: h.registry.environments.map Prod.snd).Nodup := by
  refine List.nodup_cons.2 ⟨fun hmem => ?_, hr.tables⟩
  obtain ⟨e, he, heq⟩ := List.mem_map.1 hmem
  rw [hr.environments] at he
  obtain ⟨e', he', rfl⟩ := List.mem_map.1 he
  exact hr.ne_globals he' heq

theorem Refines.nodup_observe {h : Host} {l : Layers} (hr : Refines h l) (steps : List Step) :
    ∀ o ∈ h.observe steps, (Store.globals :: o.environments.map Prod.snd).Nodup := by
  induction steps generalizing h l with
  | nil => nofun
  | cons s steps ih =>
    obtain ⟨-, hr'⟩ := hr.step s
    rw [Host.observe]
    exact List.forall_mem_cons.2 ⟨hr'.nodup, ih hr'⟩

/-- From the beginning, every step is seen to do in the host what it does in the layers, and no two surfaces ever have
the same table. -/
theorem observe_eq (steps : List Step) :
    ({} : Host).observe steps = Layers.initial.observe steps ∧
      ∀ o ∈ ({} : Host).observe steps, (Store.globals :: o.environments.map Prod.snd).Nodup :=
  ⟨refines_initial.observe steps, refines_initial.nodup_observe steps⟩

end Scratchpad.Environments
