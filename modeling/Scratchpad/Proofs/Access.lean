import Scratchpad.Proofs.Evaluation

/-!
# Access to tables from outside

A table is read and written from outside by computations that come to an end within a few steps. What they give is stated
by the store alone: a raw access by `rawGet_table` and `rawSet_table`, one with metamethods by what reads or writes the
field in the place of the table (`handler`), which is nothing (`index_of_isNil`, `setIndex_of_isNil`) or a function of an
environment (`index_of_readThrough`, `setIndex_of_writeLocal`).
-/

namespace Scratchpad.Interpreter

open Lua

variable {i : Interpreter} {p : Prog} {t : Nat} {k v : Lua.Value}

/-- What comes of a computation that ends within the steps that a run may take. -/
theorem ask_of_run {n : Nat} {store : Lua.Store} {threads : Array Thread} {m : Machine}
    {r : Except Lua.Value (List Lua.Value)} (hstore : i.store = store) (hthreads : i.threads = threads) (hn : n ≤ maxSteps)
    (h : Machine.run n { store, threads } p = (m, some r)) :
    i.ask p = ((r.map Operation.first).mapError Fault.ofValue, { i with store := m.store, threads := m.threads }) := by
  obtain ⟨extra, hextra⟩ := Nat.exists_eq_add_of_le hn
  have hrun := Machine.run_add h extra
  rw [← hextra] at hrun
  simp only [ask, run, hstore, hthreads, hrun, Option.getD_some]

theorem rawGet_table : i.rawGet (.table t) k = (.ok (i.store.rawGet t k), i) := by
  have h : Machine.run 4 { store := i.store, threads := i.threads }
      (.call (.builtin (.lib .rawget)) [.table t, k] {} .done) =
        ({ store := i.store, threads := i.threads }, some (.ok [i.store.rawGet t k])) := rfl
  rw [rawGet, ask_of_run rfl rfl (by decide) h]
  rfl

/-- The error of a key that cannot be one has the words for it as its message. -/
theorem fault_badKey {message : String} (h : k.badKey? = some message) :
    Fault.ofValue (.ofString message) = ⟨message⟩ := by
  unfold Lua.Value.badKey? at h
  split at h
  · cases h
    rfl
  · split at h
    · cases h
      rfl
    · cases h
  · cases h

/-- What comes of setting an entry of a table itself. -/
def afterSet (i : Interpreter) (t : Nat) (k v : Lua.Value) : Except Fault Lua.Value × Interpreter :=
  match k.badKey? with
  | some message => (.error (Fault.ofValue (.ofString message)), i)
  | none => (.ok .nil, { i with store := i.store.rawSet t k v })

/-- Setting an entry gives no value of its own. -/
theorem afterSet_map (i : Interpreter) (t : Nat) (k v w : Lua.Value) :
    ((i.afterSet t k v).1.map fun _ => w).map (fun _ => .nil) = (i.afterSet t k v).1 := by
  rw [afterSet]
  split <;> rfl

theorem rawSet_table : i.rawSet (.table t) k v =
    ((i.afterSet t k v).1.map fun _ => .table t, (i.afterSet t k v).2) := by
  have hstart : ∀ n, Machine.run (n + 1) { store := i.store, threads := i.threads }
      (.call (.builtin (.lib .rawset)) [.table t, k, v] {} .done) =
        Machine.run n (Machine.inLibrary i.store i.threads {})
          (Operation.rawSet .native t k v fun _ => .done [.table t]) := fun _ => rfl
  rw [afterSet]
  cases hk : k.badKey? with
  | some message =>
    have h := hstart 1
    rw [Operation.rawSet, hk] at h
    rw [rawSet, ask_of_run rfl rfl (by decide) h]
    rfl
  | none =>
    have h := hstart 3
    rw [Operation.rawSet, hk] at h
    rw [rawSet, ask_of_run rfl rfl (by decide) h]
    rfl

/-! ## Access with metamethods -/

/-- What reads or writes a field in the place of a table. -/
def handler (s : Lua.Store) (t : Nat) (event : Bytes) (k : Lua.Value) : Lua.Value :=
  if (s.rawGet t k).isNil then s.metamethod (.table t) event else .nil

theorem handler_of_isNil {s : Lua.Store} (h : (s.rawGet t k).isNil = true) (event : Bytes) :
    handler s t event k = s.metamethod (.table t) event :=
  if_pos h

/-- A field that is there is read and written in the table itself. -/
theorem isNil_handler {s : Lua.Store} (h : ¬ (s.rawGet t k).isNil = true) (event : Bytes) :
    (handler s t event k).isNil = true := by
  rw [handler, if_neg h]
  rfl

theorem indexFrom_table (spot : Spot) (fuel : Nat) (t : Nat) (k : Lua.Value) (o : Option Origin)
    (next : Lua.Value → Prog) : Operation.indexFrom spot (fuel + 1) (.table t) k o next = .query fun s =>
      if (handler s t Operation.indexKey k).isNil then next (s.rawGet t k)
      else if (handler s t Operation.indexKey k).isFunction then
        .call (handler s t Operation.indexKey k) [.table t, k] (spot.metaSite "index") fun vs =>
          next (Operation.first vs)
      else Operation.indexFrom spot fuel (handler s t Operation.indexKey k) k none next := by
  refine congrArg Prog.query (funext fun s => ?_)
  rw [handler]
  dsimp only
  generalize (if (s.rawGet t k).isNil = true then s.metamethod (.table t) Operation.indexKey else .nil) = handler
  split
  · rfl
  · split <;> rfl

theorem setIndexFrom_table (spot : Spot) (fuel : Nat) (t : Nat) (k v : Lua.Value) (o : Option Origin)
    (next : Unit → Prog) : Operation.setIndexFrom spot (fuel + 1) (.table t) k v o next = .query fun s =>
      if (handler s t Operation.newindexKey k).isNil then Operation.rawSet spot t k v next
      else if (handler s t Operation.newindexKey k).isFunction then
        .call (handler s t Operation.newindexKey k) [.table t, k, v] (spot.metaSite "newindex") fun _ => next ()
      else Operation.setIndexFrom spot fuel (handler s t Operation.newindexKey k) k v none next := by
  refine congrArg Prog.query (funext fun s => ?_)
  rw [handler]
  dsimp only
  generalize (if (s.rawGet t k).isNil = true then s.metamethod (.table t) Operation.newindexKey else .nil) = handler
  split
  · rfl
  · split <;> rfl

/-- The machine that reads or writes a field from outside. -/
def outside (i : Interpreter) : Machine :=
  { store := i.store, threads := i.threads }

/-- Reading a field begins with the choice of what reads it. -/
theorem run_index (n t : Nat) (k : Lua.Value) :
    Machine.run (n + 1) i.outside (Operation.index .native (.table t) k none fun v => .done [v]) =
      Machine.run n i.outside
        (if (handler i.store t Operation.indexKey k).isNil then .done [i.store.rawGet t k]
        else if (handler i.store t Operation.indexKey k).isFunction then
          .call (handler i.store t Operation.indexKey k) [.table t, k] (Spot.native.metaSite "index") fun vs =>
            .done [Operation.first vs]
        else Operation.indexFrom .native 1999 (handler i.store t Operation.indexKey k) k none fun v => .done [v]) :=
  congrArg (Machine.run (n + 1) i.outside) (indexFrom_table .native 1999 t k none _)

/-- Writing a field begins with the choice of what writes it. -/
theorem run_setIndex (n t : Nat) (k v : Lua.Value) :
    Machine.run (n + 1) i.outside (Operation.setIndex .native (.table t) k v none fun _ => .done []) =
      Machine.run n i.outside
        (if (handler i.store t Operation.newindexKey k).isNil then Operation.rawSet .native t k v fun _ => .done []
        else if (handler i.store t Operation.newindexKey k).isFunction then
          .call (handler i.store t Operation.newindexKey k) [.table t, k, v] (Spot.native.metaSite "newindex") fun _ =>
            .done []
        else Operation.setIndexFrom .native 1999 (handler i.store t Operation.newindexKey k) k v none fun _ =>
          .done []) :=
  congrArg (Machine.run (n + 1) i.outside) (setIndexFrom_table .native 1999 t k v none _)

theorem isNil_builtin (b : Builtin) : ¬ (Lua.Value.builtin b).isNil = true :=
  Bool.false_ne_true

theorem isFunction_builtin (b : Builtin) : (Lua.Value.builtin b).isFunction = true :=
  rfl

/-- A field that nothing else reads is read from the table. -/
theorem index_of_isNil (h : (handler i.store t Operation.indexKey (orAbsent k)).isNil = true) :
    i.index (.table t) k = (.ok (i.store.rawGet t (orAbsent k)), i) := by
  have hrun := run_index (i := i) 1 t (orAbsent k)
  rw [h, if_pos rfl] at hrun
  rw [index, ask_of_run rfl rfl (by decide) hrun]
  rfl

/-- A field that is read through is that of the globals. -/
theorem index_of_readThrough {env : Nat}
    (h : handler i.store t Operation.indexKey (orAbsent k) = .builtin (.readThrough env)) :
    i.index (.table t) k = (.ok (i.store.rawGet Store.globals (orAbsent k)), i) := by
  have hrun := run_index (i := i) 5 t (orAbsent k)
  rw [h, if_neg (isNil_builtin _), if_pos (isFunction_builtin _)] at hrun
  rw [index, ask_of_run rfl rfl (by decide) hrun]
  rfl

/-- A field that nothing else writes is written to the table. -/
theorem setIndex_of_isNil (h : (handler i.store t Operation.newindexKey (orAbsent k)).isNil = true) :
    i.setIndex (.table t) k v = i.afterSet t (orAbsent k) v := by
  rw [afterSet]
  cases hk : (orAbsent k).badKey? with
  | some message =>
    have hrun := run_setIndex (i := i) 2 t (orAbsent k) v
    rw [h, if_pos rfl, Operation.rawSet, hk] at hrun
    rw [setIndex, ask_of_run rfl rfl (by decide) hrun]
    rfl
  | none =>
    have hrun := run_setIndex (i := i) 3 t (orAbsent k) v
    rw [h, if_pos rfl, Operation.rawSet, hk] at hrun
    rw [setIndex, ask_of_run rfl rfl (by decide) hrun]
    rfl

/-- A field that is written locally is written to the table, too. -/
theorem setIndex_of_writeLocal {env : Nat}
    (h : handler i.store t Operation.newindexKey (orAbsent k) = .builtin (.writeLocal env)) :
    i.setIndex (.table t) k v = i.afterSet t (orAbsent k) v := by
  rw [afterSet]
  -- The call of the function that writes.
  have hcall : ∀ n, Machine.run (n + 1) i.outside (.call (.builtin (.writeLocal env)) [.table t, orAbsent k, v]
      (Spot.native.metaSite "newindex") fun _ => .done []) =
        Machine.run n { store := i.store, threads := i.threads, frames := [.call (Spot.native.metaSite "newindex")
          (Machine.Depth.enter {} (Spot.native.metaSite "newindex")) fun _ => .done []] }
          (Operation.rawSet .native t (orAbsent k) v fun _ => .done []) := fun _ => rfl
  cases hk : (orAbsent k).badKey? with
  | some message =>
    have hrun := run_setIndex (i := i) 2 t (orAbsent k) v
    rw [h, if_neg (isNil_builtin _), if_pos (isFunction_builtin _), hcall, Operation.rawSet, hk] at hrun
    rw [setIndex, ask_of_run rfl rfl (by decide) hrun]
    rfl
  | none =>
    have hrun := run_setIndex (i := i) 5 t (orAbsent k) v
    rw [h, if_neg (isNil_builtin _), if_pos (isFunction_builtin _), hcall, Operation.rawSet, hk] at hrun
    rw [setIndex, ask_of_run rfl rfl (by decide) hrun]
    rfl

end Scratchpad.Interpreter
