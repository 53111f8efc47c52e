import Scratchpad.Proofs.Interpreter
import Scratchpad.Proofs.Lua.Delivery
import Scratchpad.Proofs.Lua.Parser.Declared
import Scratchpad.Proofs.Lua.Names

/-!
# The run of lines that copy and return variables

While the metatable of an environment lets it keep what is written to it (`KeepsWrites`), lines that copy variables to
its fields set these fields to the values of the variables, whatever they held before, and lines that return variables
return their values. Main statement: if a program that is a declaration with such lines succeeds, and the environment
keeps what is written to it once the initial values are there, then the program returns the values that the fields have
afterwards (`succeeds_declaration`).
-/

namespace Scratchpad.Lua

open Lua.Comp Meaning Operation

namespace Store

variable {s s' : Store} {c t mt n : Nat} {k v : Value} {x : Bytes} {value : Bytes → Value}

/-! ## Cells -/

theorem lt_of_cell (h : s.cell c = .table t) : c < s.cells.size := by
  by_contra hlt
  rw [cell, Array.getD_eq_getD_getElem?, Array.getElem?_eq_none (Nat.le_of_not_lt hlt)] at h
  cases h

/-- New variables leave the others. -/
theorem cell_pushCells (h : c < s.cells.size) (vs : List Value) : (s.pushCells vs).cell c = s.cell c := by
  rw [cell, cell, pushCells]
  dsimp only
  generalize s.cells = cells at h ⊢
  induction vs generalizing cells with
  | nil => rfl
  | cons v vs ih =>
    rw [List.foldl_cons, ih _ (by rw [Array.size_push]; omega), Array.getD_eq_getD_getElem?, Array.getElem?_push_lt h,
      Array.getD_eq_getD_getElem?, Array.getElem?_eq_getElem h]

theorem cell_pushCells_self (s : Store) (v : Value) : (s.pushCells [v]).cell s.cells.size = v := by
  rw [cell, Array.getD_eq_getD_getElem?]
  exact congrArg (Option.getD · Value.nil) Array.getElem?_push_size

theorem cell_setCell_of_ne {i : Nat} (h : c ≠ i) (v : Value) : (s.setCell i v).cell c = s.cell c := by
  rw [cell, cell, setCell]
  dsimp only
  rw [Array.getD_eq_getD_getElem?, Array.getD_eq_getD_getElem?, Array.set!_eq_setIfInBounds,
    Array.getElem?_setIfInBounds_ne (Ne.symm h)]

/-- A new function leaves tables and variables. -/
theorem tables_pushClosure (s : Store) (f : Closure) : (s.pushClosure f).tables = s.tables := rfl

theorem cell_pushClosure (s : Store) (f : Closure) (i : Nat) : (s.pushClosure f).cell i = s.cell i := rfl

/-! ## Fields that are written -/

/-- The metatable of the table `t` is another table, and has the function of the environment `n` for new fields. -/
structure KeepsWrites (s : Store) (t mt n : Nat) : Prop where
  metatable : (s.table t).metatable = some mt
  ne : mt ≠ t
  newindex : s.rawGet mt (.str newindexKey) = .builtin (.writeLocal n)

theorem KeepsWrites.bound (h : s.KeepsWrites t mt n) : t < s.tables.size := by
  by_contra hlt
  have hmetatable := h.metatable
  rw [table_of_le (Nat.le_of_not_lt hlt)] at hmetatable
  cases hmetatable

theorem KeepsWrites.set (h : s.KeepsWrites t mt n) (k v : Value) : (s.rawSet t k v).KeepsWrites t mt n where
  metatable := metatable_rawSet.trans h.metatable
  ne := h.ne
  newindex := by rw [← h.newindex, rawGet, rawGet, table_rawSet_of_ne h.ne]

theorem KeepsWrites.of_tables_eq (h : s.KeepsWrites t mt n) (hs : s'.tables = s.tables) : s'.KeepsWrites t mt n where
  metatable := by rw [table_eq_of_tables_eq hs, h.metatable]
  ne := h.ne
  newindex := by rw [← h.newindex, rawGet, rawGet, table_eq_of_tables_eq hs]

/-- A field that is not `nil` keeps its value when another key is set. -/
theorem rawGet_rawSet_of_ne (h : s.rawGet t (.str x) ≠ .nil) (hne : .str x ≠ k.toKey) (v : Value) :
    (s.rawSet t k v).rawGet t (.str x) = s.rawGet t (.str x) := by
  rw [rawGet, table_rawSet_self (lt_of_rawGet_ne_nil h)]
  exact Table.get_set_name_of_ne h hne

/-- The store in which fields of a table have the values of their names. -/
def writeAll (s : Store) (t : Nat) (value : Bytes → Value) (names : List Bytes) : Store :=
  names.foldl (fun s x => s.rawSet t (.str x) (value x)) s

theorem Valid.writeAll (h : s.Valid) (t : Nat) (value : Bytes → Value) (names : List Bytes) :
    (s.writeAll t value names).Valid := by
  induction names generalizing s with
  | nil => exact h
  | cons x names ih => exact ih (h.rawSet t (.str x) (value x))

theorem size_writeAll (s : Store) (t : Nat) (value : Bytes → Value) (names : List Bytes) :
    (s.writeAll t value names).tables.size = s.tables.size := by
  induction names generalizing s with
  | nil => rfl
  | cons x names ih => exact (ih _).trans size_rawSet

/-- A field has the value of its name once it is written. -/
theorem rawGet_writeAll (h : s.Valid) (ht : t < s.tables.size) {names : List Bytes}
    (hx : x ∈ names ∨ s.rawGet t (.str x) = value x) : (s.writeAll t value names).rawGet t (.str x) = value x := by
  induction names generalizing s with
  | nil => exact hx.resolve_left List.not_mem_nil
  | cons y names ih =>
    refine ih (h.rawSet t (.str y) (value y)) (by rwa [size_rawSet]) ?_
    rw [rawGet_rawSet (h t) ht]
    rcases hx with hx | hx
    · rcases List.mem_cons.1 hx with rfl | hx
      · exact .inr (if_pos rfl)
      · exact .inl hx
    · refine .inr ?_
      split
      · rename_i hxy
        cases hxy
        rfl
      · exact hx

end Store

namespace Machine

variable {m : Machine} {c t mt n : Nat} {x : Bytes} {v : Value} {ctx : Context}

/-! ## Writing a field -/

/-- An environment keeps a field that its function for new fields writes. -/
theorem outcome_writeLocal (hm : m.Main) (hh : handlerOf m.frames = none) (n t : Nat) (x : Bytes) (v : Value) (site : Site) :
    m.Outcome (Comp.call (.builtin (.writeLocal n)) [.table t, .str x, v] site) fun _ m' =>
      m' = { m with store := m.store.rawSet t (.str x) v } := by
  have hstep : ∀ k j, run (j + 1) m (Comp.call (.builtin (.writeLocal n)) [.table t, .str x, v] site k) =
      runNext j (m.enter (.builtin (.writeLocal n)) [.table t, .str x, v] site true k) := fun k j => by
    rw [run_succ]
    simp only [step, Comp.call, call, resolve_builtin]
  rcases hdeep : tooDeep? m.base (depthOf m.frames) (Depth.enter (depthOf m.frames) site) with _ | message
  · refine .of_delivers (i := 3) (a := []) (fun k j => ?_) hm rfl
    rw [show 3 + j = j + 2 + 1 by omega, hstep]
    simp only [enter, if_true, hdeep]
    rfl
  · refine .inr (.inr ⟨2, .str ((site.position.map Position.text).getD [] ++ bytes message), m, fun k j => ?_, hm⟩)
    rw [show 2 + j = 1 + j + 1 by omega, hstep]
    simp only [enter, if_true, hdeep]
    exact raises_fail hh _ (fun _ : Unit => .done []) j

/-- An environment keeps a field that is written, whether or not it is new. -/
theorem outcome_setIndex (hm : m.Main) (hh : handlerOf m.frames = none) (hw : m.store.KeepsWrites t mt n) (spot : Spot)
    (x : Bytes) (v : Value) (o : Option Origin) : m.Outcome (setIndex spot (.table t) (.str x) v o) fun _ m' =>
      m' = { m with store := m.store.rawSet t (.str x) v } := by
  change m.Outcome (setIndexFrom spot (1999 + 1) (.table t) (.str x) v o) _
  rw [setIndexFrom]
  refine Outcome.bind (.of_delivers (delivers_read m _) hm (P := fun a m' => _ = a ∧ m = m') ⟨rfl, rfl⟩) ?_
  rintro _ _ - - ⟨rfl, rfl⟩
  by_cases hnil : (m.store.rawGet t (.str x)).isNil = true
  · have hmeta : m.store.metamethod (.table t) newindexKey = .builtin (.writeLocal n) := by
      simp only [Store.metamethod, Store.metatable?, hw.metatable, hw.newindex]
    simp only [hnil, if_true, hmeta]
    refine Outcome.bind (outcome_writeLocal hm hh n t x v _) ?_
    rintro _ _ hm' - rfl
    exact .of_delivers (delivers_pure _ ()) hm' rfl
  · simp only [hnil]
    exact .of_delivers (delivers_update m _) hm rfl

/-! ## Reading a field -/

/-- A field that is not `nil` is read from the table itself. -/
theorem delivers_index (h : m.store.rawGet t (.str x) ≠ .nil) (spot : Spot) (o : Option Origin) :
    m.Delivers (index spot (.table t) (.str x) o) 1 (m.store.rawGet t (.str x)) m := by
  have hnil : ¬ (m.store.rawGet t (.str x)).isNil = true := by
    simpa using (Table.isNil_eq_false_iff _).2 h
  change m.Delivers (indexFrom spot (1999 + 1) (.table t) (.str x) o) _ _ _
  rw [indexFrom]
  refine (delivers_read m _).bind (j := 0) ?_
  dsimp only
  rw [if_neg hnil]
  exact delivers_pure m _

/-- A program that returns a field of its environment. -/
theorem delivers_field {envVar : VarRef} (hcell : m.store.cell (cellOf ctx envVar) = .table t)
    (h : m.store.rawGet t (.str x) ≠ .nil) (line : Nat) (tail : Bool) :
    m.Delivers (execList ctx [.ret [.index (.var envVar) (.str x) line] tail]) 2 (.ret [m.store.rawGet t (.str x)]) m := by
  have hret : exec ctx (.ret [.index (.var envVar) (.str x) line] tail) =
      evalList ctx [.index (.var envVar) (.str x) line] >>= fun vs => pure (.ret vs) := by
    cases tail <;> (rw [exec] <;> simp)
  have hindex : m.Delivers (eval ctx (.index (.var envVar) (.str x) line)) 2 [m.store.rawGet t (.str x)] m := by
    rw [eval, eval, eval]
    refine (delivers_read m _).bind (j := 1) ?_
    refine (delivers_pure m _).bind (j := 1) ?_
    rw [hcell]
    exact (delivers_index h _ _).bind (j := 0) (delivers_pure m _)
  rw [execList_cons ctx (by simp) (by simp), hret, evalList]
  exact ((hindex.bind (j := 0) (delivers_pure m _)).bind (j := 0) (delivers_pure m _)).bind (j := 0) (delivers_pure m _)

/-! ## Lines -/

section Lines

variable {F : List Parser.FuncScope} {env : Bytes} {names copies : List Bytes} {ss : List Stmt} {envVar : VarRef}
  {use : Bytes → VarRef}

/-- The value of the variable that a name stands for. -/
def valueOf (s : Store) (ctx : Context) (use : Bytes → VarRef) (x : Bytes) : Value :=
  s.cell (cellOf ctx (use x))

/-- Variables have the values of their cells. -/
theorem outcome_vars (hm : m.Main) (ctx : Context) (use : Bytes → VarRef) (names : List Bytes) :
    m.Outcome (evalList ctx (names.map fun x => .var (use x))) fun vs m' =>
      names.map (valueOf m.store ctx use) = vs ∧ m = m' := by
  induction names with
  | nil =>
    rw [List.map_nil, evalList]
    exact .of_delivers (delivers_pure m []) hm ⟨rfl, rfl⟩
  | cons x names ih =>
    have hvar : m.Outcome (eval ctx (.var (use x))) fun vs m' => [valueOf m.store ctx use x] = vs ∧ m = m' := by
      rw [eval]
      exact .of_delivers (delivers_read m _) hm ⟨rfl, rfl⟩
    cases names with
    | nil =>
      rw [List.map_singleton, evalList]
      refine hvar.bind ?_
      rintro _ _ - - ⟨rfl, rfl⟩
      exact .of_delivers (delivers_pure m _) hm ⟨rfl, rfl⟩
    | cons y names =>
      rw [List.map_cons, List.map_cons, evalList]
      refine hvar.bind ?_
      rintro _ _ - - ⟨rfl, rfl⟩
      refine Outcome.bind ih ?_
      rintro _ _ - - ⟨rfl, rfl⟩
      exact .of_delivers (delivers_pure m _) hm ⟨rfl, rfl⟩

/-- Variables that are returned replace no call. -/
theorem exec_ret_vars (ctx : Context) (use : Bytes → VarRef) (names : List Bytes) (tail : Bool) :
    exec ctx (.ret (names.map fun x => .var (use x)) tail) =
      evalList ctx (names.map fun x => .var (use x)) >>= fun vs => pure (.ret vs) := by
  cases tail with
  | false => rw [exec] <;> simp
  | true => rcases names with _ | ⟨x, _ | ⟨y, names⟩⟩ <;> (rw [exec] <;> simp)

/-- The line that copies a variable sets the field. -/
theorem outcome_copy (hm : m.Main) (hh : handlerOf m.frames = none) (hcell : m.store.cell (cellOf ctx envVar) = .table t)
    (hw : m.store.KeepsWrites t mt n) (x : Bytes) (v : VarRef) (line : Nat) :
    m.Outcome (exec ctx (.assign [.index (.var envVar) (.str x) line] [.var v])) fun flow m' =>
      .normal = flow ∧ m' = { m with store := m.store.rawSet t (.str x) (m.store.cell (cellOf ctx v)) } := by
  have hplace : m.Outcome (evalPlace ctx (.index (.var envVar) (.str x) line)) fun p m' =>
      Place.field (.table t) (.str x) (Expr.var envVar).origin? line = p ∧ m = m' := by
    rw [evalPlace, evalOne, evalOne, eval, eval]
    change m.Outcome (Comp.read (fun s => [s.cell (cellOf ctx envVar)]) >>= fun vs =>
      pure (Place.field (first vs) (.str x) (Expr.var envVar).origin? line)) _
    refine Outcome.bind (.of_delivers (delivers_read m _) hm (P := fun vs m' => _ = vs ∧ m = m') ⟨rfl, rfl⟩) ?_
    rintro _ _ - - ⟨rfl, rfl⟩
    rw [hcell]
    exact .of_delivers (delivers_pure m _) hm ⟨rfl, rfl⟩
  rw [exec]
  refine hplace.bind ?_
  rintro _ _ - - ⟨rfl, rfl⟩
  refine Outcome.bind (outcome_vars hm ctx (fun _ => v) [x]) ?_
  rintro _ _ - - ⟨rfl, rfl⟩
  rw [Meaning.store]
  refine Outcome.bind (outcome_setIndex hm hh hw (spotAt ctx line) x _ _) ?_
  rintro _ _ hm' - rfl
  exact .of_delivers (delivers_pure _ _) hm' ⟨rfl, rfl⟩

/-- Lines that copy variables set their fields, and return the values of the variables that they return. -/
theorem outcome_lines (henv : ∀ e, Parser.Uses F env e → e = .var envVar)
    (huse : ∀ x ∈ names, ∀ e, Parser.Uses F x e → e = .var (use x)) (hcopies : ∀ x ∈ copies, x ∈ names)
    (h : Parser.IsLines F env names copies ss) (hm : m.Main) (hh : handlerOf m.frames = none)
    (hcell : m.store.cell (cellOf ctx envVar) = .table t) (hw : m.store.KeepsWrites t mt n) :
    m.Outcome (execList ctx ss) fun flow m' => flow = .ret (names.map (valueOf m.store ctx use)) ∧
      m' = { m with store := m.store.writeAll t (valueOf m.store ctx use) copies } := by
  induction h generalizing m with
  | @returned es tail hes =>
    have hes : es = names.map fun x => .var (use x) := by
      have hvars := ((List.forall₂_and_left names es).2 ⟨huse, hes⟩).imp fun x e h => (h.1 e h.2).symm
      have heq := List.forall₂_map_left_iff.2 hvars
      rw [List.forall₂_eq_eq_eq] at heq
      exact heq.symm
    rw [hes, execList_cons ctx (by simp) (by simp), exec_ret_vars]
    have hret : m.Outcome (evalList ctx (names.map fun x => .var (use x)) >>= fun vs => pure (Flow.ret vs)) fun flow m' =>
        .ret (names.map (valueOf m.store ctx use)) = flow ∧ m = m' := by
      refine (outcome_vars hm ctx use names).bind ?_
      rintro _ _ - - ⟨rfl, rfl⟩
      exact .of_delivers (delivers_pure m _) hm ⟨rfl, rfl⟩
    refine hret.bind ?_
    rintro _ _ - - ⟨rfl, rfl⟩
    exact .of_delivers (delivers_pure m _) hm ⟨rfl, rfl⟩
  | @copied x o e line copies ss ho he _ ih =>
    rw [henv o ho, huse x (hcopies x List.mem_cons_self) e he, execList_cons ctx (by simp) (by simp)]
    refine Outcome.bind (outcome_copy hm hh hcell hw x (use x) line) ?_
    rintro _ _ hm' hframes ⟨rfl, rfl⟩
    have hmore := ih (fun y hy => hcopies y (List.mem_cons_of_mem x hy)) hm' hh hcell (hw.set _ _)
    exact hmore

end Lines

/-! ## Declarations -/

section Declarations

variable {names : List Bytes} {values : List Expr} {d : Stmt} {lines : List Stmt}

theorem closeTarget?_plain (names : List Bytes) (vs : List Value) :
    closeTarget? (names.map fun w => (w, false)) vs = none := by
  rw [closeTarget?, Option.map_eq_none_iff, List.find?_eq_none]
  intro e he
  obtain ⟨w, -, hw⟩ := List.mem_map.1 (List.of_mem_zip he).1
  rw [← hw]
  exact Bool.false_ne_true

theorem length_adjust (n : Nat) (vs : List Value) : (adjust n vs).length = n := by
  induction n generalizing vs with
  | zero => rfl
  | succ n ih => cases vs <;> exact congrArg (· + 1) (ih _)

/-- The fields of the table `t` are set to the values that are returned, and no other table is changed. -/
def Copied (m : Machine) (t : Nat) (names : List Bytes) (flow : Flow) (m' : Machine) : Prop :=
  ∃ (s : Store) (value : Bytes → Value), s.tables = m.store.tables ∧ flow = .ret (names.map value) ∧
    m' = { m with store := s.writeAll t value names }

/-- What a machine holds besides tables does not matter. -/
theorem Copied.of_tables_eq {s : Store} {flow : Flow} {m' : Machine} (hs : s.tables = m.store.tables)
    (h : Copied { m with store := s } t names flow m') : Copied m t names flow m' := by
  obtain ⟨s', value, hs', hflow, hm'⟩ := h
  exact ⟨s', value, hs'.trans hs, hflow, hm'⟩

/-- The lines behind a declaration, in the scope of its variables. -/
theorem outcome_inScope (henv : bytes "_ENV" ∉ names)
    (hlines : Parser.IsLines (Parser.declaredScopes names) (bytes "_ENV") names names lines) (hscope : ctx.scope = [c])
    {cells : List Nat} (hcells : cells.length = names.length) (hm : m.Main) (hh : handlerOf m.frames = none)
    (hcell : m.store.cell c = .table t) (hw : m.store.KeepsWrites t mt n) :
    m.Outcome (execList (extend ctx cells) lines) (Copied m t names) := by
  have : Nonempty VarRef := ⟨⟨[], 0, false⟩⟩
  choose! use huse using fun x (hx : x ∈ names) =>
    Parser.nameIn_declaredScopes hx (ne_of_mem_of_not_mem hx henv)
  have hcellOf : cellOf (extend ctx cells) ⟨bytes "_ENV", names.length, true⟩ = c := by
    rw [cellOf, extend, hscope, ← hcells, ← List.length_reverse]
    simp
  rw [← hcellOf] at hcell
  refine (outcome_lines (fun e he => Parser.envIn_declaredScopes henv he) huse (fun _ hx => hx) hlines hm hh hcell
    hw).imp ?_
  rintro flow m' ⟨hflow, hm'⟩
  exact ⟨m.store, _, rfl, hflow, hm'⟩

/-- What is left of a declaration of variables and the lines behind it, once its initial values are there. -/
def localsThen (ctx : Context) (names : List Bytes) (lines : List Stmt) (vs : List Value) : Comp Flow := do
  let cells ← newCells (adjust names.length vs)
  execList (extend ctx cells) lines

/-- A local function and the lines behind it: its variable is there before the function is. -/
def functionThen (ctx : Context) (f : Func) (lines : List Stmt) : Comp Flow := do
  let cells ← newCells [.nil]
  let v ← newClosure ⟨f, (extend ctx cells).scope⟩
  update fun s => s.setCell (cells.headD 0) v
  execList (extend ctx cells) lines

theorem outcome_localsThen (henv : bytes "_ENV" ∉ names)
    (hlines : Parser.IsLines (Parser.declaredScopes names) (bytes "_ENV") names names lines) (hscope : ctx.scope = [c])
    (vs : List Value) (hm : m.Main) (hh : handlerOf m.frames = none) (hcell : m.store.cell c = .table t)
    (hw : m.store.KeepsWrites t mt n) : m.Outcome (localsThen ctx names lines vs) (Copied m t names) := by
  refine Outcome.bind (.of_delivers (delivers_newCells m _) hm
    (P := fun cells m' => _ = cells ∧ { m with store := m.store.pushCells (adjust names.length vs) } = m')
    ⟨rfl, rfl⟩) ?_
  rintro _ _ hm' - ⟨rfl, rfl⟩
  have hlength : ((List.range (adjust names.length vs).length).map (m.store.cells.size + ·)).length = names.length := by
    rw [List.length_map, List.length_range, length_adjust]
  exact (outcome_inScope henv hlines hscope hlength hm' hh ((Store.cell_pushCells (Store.lt_of_cell hcell) _).trans hcell)
    (hw.of_tables_eq rfl)).imp fun _ _ => .of_tables_eq rfl

theorem outcome_functionThen {name : Bytes} (henv : bytes "_ENV" ∉ [name])
    (hlines : Parser.IsLines (Parser.declaredScopes [name]) (bytes "_ENV") [name] [name] lines)
    (hscope : ctx.scope = [c]) (f : Func) (hm : m.Main) (hh : handlerOf m.frames = none)
    (hcell : m.store.cell c = .table t) (hw : m.store.KeepsWrites t mt n) :
    m.Outcome (functionThen ctx f lines) (Copied m t [name]) := by
  have hlt := Store.lt_of_cell hcell
  let s := m.store.pushCells [.nil]
  let s' := s.pushClosure ⟨f, (extend ctx [m.store.cells.size + 0]).scope⟩
  refine Outcome.bind (.of_delivers (delivers_newCells m _) hm
    (P := fun cells m' => [m.store.cells.size + 0] = cells ∧ { m with store := s } = m') ⟨rfl, rfl⟩) ?_
  rintro _ _ hm₁ - ⟨rfl, rfl⟩
  refine Outcome.bind (.of_delivers (delivers_newClosure _ _) hm₁
    (P := fun v m' => .closure s.closures.size = v ∧ { m with store := s' } = m') ⟨rfl, rfl⟩) ?_
  rintro _ _ hm₂ - ⟨rfl, rfl⟩
  refine Outcome.bind (.of_delivers (delivers_update _ _) hm₂
    (P := fun _ m' => { m with store := s'.setCell (m.store.cells.size + 0) (.closure s.closures.size) } = m') rfl) ?_
  rintro _ _ hm₃ - rfl
  have hcell' : (s'.setCell (m.store.cells.size + 0) (.closure s.closures.size)).cell c = .table t :=
    (Store.cell_setCell_of_ne (by omega) _).trans ((Store.cell_pushCells hlt [.nil]).trans hcell)
  exact (outcome_inScope henv hlines hscope rfl hm₃ hh hcell' (hw.of_tables_eq rfl)).imp fun _ _ => .of_tables_eq rfl

/-- A declaration evaluates its initial values first. Once they are there, the lines behind it write the values of its
variables to the environment and return them, if the environment is still what the variable of the chunk holds and
keeps what is written to it. -/
theorem execList_declares (hd : Parser.Declares d names values) (henv : bytes "_ENV" ∉ names)
    (hlines : Parser.IsLines (Parser.declaredScopes names) (bytes "_ENV") names names lines) (hscope : ctx.scope = [c]) :
    ∃ rest : List Value → Comp Flow, execList ctx (d :: lines) = evalList ctx values >>= rest ∧
      ∀ vs (m : Machine) t mt n, m.Main → handlerOf m.frames = none → m.store.cell c = .table t →
        m.store.KeepsWrites t mt n → m.Outcome (rest vs) (Copied m t names) := by
  cases hd with
  | locals names values line =>
    refine ⟨localsThen ctx names lines, ?_, fun vs m t mt n => outcome_localsThen henv hlines hscope vs⟩
    rw [execList]
    simp only [closeTarget?_plain, List.length_map]
    rfl
  | function f name =>
    refine ⟨fun _ => functionThen ctx f lines, ?_, fun _ m t mt n => outcome_functionThen henv hlines hscope f⟩
    rw [execList, evalList]
    rfl

end Declarations

/-! ## Programs that are a declaration -/

section Programs

variable {store : Store} {threads : Array Thread} {site : Site} {source : Bytes} {names : List Bytes} {values : List Expr}
  {d : Stmt} {lines body : List Stmt} {shown : List Value} {mEnd : Machine}

/-- How a program ends. -/
def programEnd : Flow → Prog
  | .ret vs => .done vs
  | _ => .done []

/-- A program without labels is run in the scope of its environment. -/
theorem run_invoke_program (hlabels : body.any isLabel = false) (c k : Nat) (m : Machine) :
    run (k + 2) m (invoke ⟨.mk 0 true body 0 source, [c]⟩ []) = run k m (execList ⟨[c], [], source⟩ body programEnd) := by
  have hblock : execBlock ⟨[c], [], source⟩ body = execList ⟨[c], [], source⟩ body := by
    rw [execBlock, asBlock, if_neg (by rw [hlabels]; exact Bool.false_ne_true)]
  have hinvoke : run (k + 2) m (invoke ⟨.mk 0 true body 0 source, [c]⟩ []) =
      run k m (execBlock ⟨[c], [], source⟩ body programEnd) := by
    rw [Nat.add_comm]
    exact delivers_newCells m [] (fun cells => execBlock ⟨cells.reverse ++ [c], [], source⟩ body programEnd) k
  rw [hinvoke, hblock]

theorem isLabel_lines {F : List Parser.FuncScope} {env : Bytes} {copies : List Bytes}
    (h : Parser.IsLines F env names copies lines) : lines.any isLabel = false := by
  induction h with
  | returned => rfl
  | copied _ _ _ ih => exact ih

theorem isLabel_declares (h : Parser.Declares d names values) : isLabel d = false := by
  cases h <;> rfl

/-- A program that is a declaration with its lines evaluates the initial values first. If it succeeds, and the
environment keeps what is written to it once the values are there, then the fields of the declared names are set to the
values that the program returns. -/
theorem succeeds_declaration (hd : Parser.Declares d names values) (henv : bytes "_ENV" ∉ names)
    (hlines : Parser.IsLines (Parser.declaredScopes names) (bytes "_ENV") names names lines)
    (hrun : Succeeds n (inProgram store threads site) (invoke ⟨.mk 0 true (d :: lines) 0 source, [c]⟩ []) shown mEnd) :
    ∃ i vs m₁, (inProgram store threads site).Delivers (evalList ⟨[c], [], source⟩ values) i vs m₁ ∧
      ∀ t mt n, m₁.store.cell c = .table t → m₁.store.KeepsWrites t mt n →
        ∃ (s : Store) (value : Bytes → Value), s.tables = m₁.store.tables ∧ shown = names.map value ∧
          mEnd.store = s.writeAll t value names := by
  have hm : (inProgram store threads site).Main := ⟨rfl, rfl⟩
  have hbody : (d :: lines).any isLabel = false := by
    rw [List.any_cons, isLabel_declares hd, isLabel_lines hlines]
    rfl
  have hscope : (Context.mk [c] [] source).scope = [c] := rfl
  obtain ⟨rest, hexec, hrest⟩ := execList_declares hd henv hlines hscope
  have hrun₀ : Succeeds n (inProgram store threads site) ((evalList ⟨[c], [], source⟩ values >>= rest) programEnd) shown
      mEnd := by
    rw [Succeeds, ← hexec, ← run_invoke_program hbody]
    exact run_add hrun 2
  obtain ⟨i, vs, m₁, hdelivers, hm₁, hframes₁, -, hrun₁⟩ :=
    (indifferent_evalList ⟨[c], [], source⟩ values _ hm rfl).of_succeeds (k := fun vs => rest vs programEnd) rfl hrun₀
  refine ⟨i, vs, m₁, hdelivers, fun t mt n' hcell hw => ?_⟩
  have hhandler : handlerOf m₁.frames = none := by
    rw [hframes₁]
    rfl
  obtain ⟨j, flow, m₂, -, hm₂, hframes₂, ⟨s, value, hs, rfl, rfl⟩, hrun₂⟩ :=
    (hrest vs m₁ t mt n' hm₁ hhandler hcell hw).of_succeeds hframes₁ hrun₁
  obtain ⟨rfl, rfl⟩ := hrun₂.done hm₂ hframes₁
  exact ⟨s, value, hs, rfl, rfl⟩

end Programs

end Machine

end Scratchpad.Lua
