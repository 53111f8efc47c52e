import Scratchpad.Proofs.Layers

/-!
# Blank environments

A new environment holds nothing but itself and is read through (`Interpreter.Blank`). It still is when a snippet is
compiled in it; while the snippet runs, the environment holds the `print` that records lines besides. Main statement:
whatever else is read there comes from the globals (`Interpreter.Blank.bare_capturing`).
-/

namespace Scratchpad

open Lua

/-! ## What a new environment holds -/

namespace Interpreter

variable {i i' : Interpreter} {env : Nat}

/-- The environment holds nothing but itself, and is read through. -/
structure Blank (i : Interpreter) (env : Nat) : Prop where
  holds : i.store.Holds env (Environments.Layers.fresh env).entries
  through : ∃ mt n, (i.store.table env).metatable = some mt ∧ mt ≠ env ∧
    i.store.rawGet mt (.str Operation.indexKey) = .builtin (.readThrough n)

theorem blank_newEnvironment (i : Interpreter) : i.newEnvironment.2.Blank i.newEnvironment.1 := by
  rw [Environments.newEnvironment_eq]
  refine ⟨Environments.holds_fresh, _, i.environments, Environments.metatable_fresh,
    Nat.ne_of_lt (Nat.lt_succ_self _), ?_⟩
  rw [Store.rawGet, Environments.table_metatable_fresh, (Environments.get_metatableOf _).1]

/-- What an environment holds depends on the tables alone. -/
theorem Blank.of_tables_eq (h : i.Blank env) (htables : i'.store.tables = i.store.tables) : i'.Blank env := by
  have htable : ∀ t, i'.store.table t = i.store.table t := fun t => by rw [Store.table, htables, Store.table]
  obtain ⟨mt, n, hmetatable, hne, hindex⟩ := h.through
  refine ⟨h.holds.of_table_eq (htable env) (Nat.le_of_eq (by rw [htables])), mt, n, ?_, hne, ?_⟩
  · rw [htable, hmetatable]
  · rw [Store.rawGet, htable]
    exact hindex

/-- A blank environment that is made to hold itself again is blank. -/
theorem Blank.restoreSelf (h : i.Blank env) : (i.restoreSelf env).Blank env := by
  obtain ⟨mt, n, hmetatable, hne, hindex⟩ := h.through
  refine ⟨?_, mt, n, Store.metatable_rawSet.trans hmetatable, hne, ?_⟩
  · have hself : (Environments.Layers.fresh env).entries.set envKey (.table env) =
        (Environments.Layers.fresh env).entries := Store.Entries.set_set _ _ _ _
    rw [← hself]
    exact h.holds.set _ _
  · rw [Interpreter.restoreSelf, Store.rawGet, Store.table_rawSet_of_ne hne]
    exact hindex

/-- The environment of a surface is blank if the surface has none yet, or a blank one. -/
theorem blank_getOrCreate {r : Registry} {id : SurfaceId} (h : ∀ env, r.find? id = some env → i.Blank env) :
    (r.getOrCreate i id).2.2.2.Blank (r.getOrCreate i id).1 := by
  rw [Registry.getOrCreate]
  split
  · rename_i env henv
    exact (h env henv).restoreSelf
  · exact blank_newEnvironment i

/-! ## What a snippet finds there -/

/-- The environment binds nothing but itself and the `print` that records lines. Everything else is read from the
globals. -/
structure Bare (i : Interpreter) (env : Nat) : Prop where
  self : i.store.rawGet env envKey = .table env
  print : i.store.rawGet env printKey = .builtin (.capture i.evaluations)
  absent : ∀ k, k ≠ envKey → k ≠ printKey → i.store.rawGet env k = .nil
  index : ∀ k, k ≠ envKey → k ≠ printKey →
    i.index (.table env) k = (.ok (i.store.rawGet Store.globals (orAbsent k)), i)

theorem toKey_ne_ofString {k : Lua.Value} {s : String} (hk : k ≠ .ofString s) :
    k.toKey ≠ (Lua.Value.ofString s).toKey := by
  intro h
  unfold Lua.Value.toKey at h
  split at h
  · split at h <;> cases h
  · exact hk h

theorem orAbsent_ne_ofString {k : Lua.Value} {s : String} (hk : k ≠ .ofString s) : orAbsent k ≠ .ofString s := by
  unfold orAbsent
  split
  · nofun
  · exact hk

/-- In the state in which a snippet runs, a blank environment is bare. -/
theorem Blank.bare_capturing (h : i.Blank env) : (Evaluator.capturing i env).Bare env := by
  obtain ⟨mt, n, hmetatable, hne, hindex⟩ := h.through
  have hholds : (Evaluator.capturing i env).store.Holds env _ :=
    (h.holds.set printKey (.builtin (.capture (i.evaluations + 1)))).of_table_eq rfl (Nat.le_refl _)
  have habsent : ∀ k, k ≠ envKey → k ≠ printKey → (Evaluator.capturing i env).store.rawGet env k = .nil := by
    intro k hself hprint
    have hself' : k.toKey ≠ envKey.toKey := toKey_ne_ofString hself
    have hprint' : k.toKey ≠ printKey.toKey := toKey_ne_ofString hprint
    rw [hholds.rawGet, Store.Entries.set_of_ne _ _ _ hprint']
    exact Store.Entries.set_of_ne (fun _ => .nil) envKey (.table env) hself'
  have hmetamethod : (Evaluator.capturing i env).store.metamethod (.table env) Operation.indexKey =
      .builtin (.readThrough n) := by
    have hmt : ((Evaluator.capturing i env).store.table env).metatable = some mt :=
      Store.metatable_rawSet.trans hmetatable
    rw [Store.metamethod, Store.metatable?, hmt]
    exact (congrArg (fun t => Lua.Table.get t _) (Store.table_rawSet_of_ne hne)).trans hindex
  refine ⟨?_, ?_, habsent, fun k hself hprint => ?_⟩
  · have hkeys : envKey.toKey ≠ printKey.toKey := by decide
    rw [hholds.rawGet, Store.Entries.set_of_ne _ _ _ hkeys]
    exact Store.Entries.set_self (fun _ => .nil) envKey (.table env)
  · rw [hholds.rawGet]
    exact Store.Entries.set_self _ _ _
  · have hnil : ((Evaluator.capturing i env).store.rawGet env (orAbsent k)).isNil = true := by
      rw [habsent _ (orAbsent_ne_ofString hself) (orAbsent_ne_ofString hprint)]
      rfl
    exact index_of_readThrough ((handler_of_isNil hnil _).trans hmetamethod)

end Interpreter

end Scratchpad
