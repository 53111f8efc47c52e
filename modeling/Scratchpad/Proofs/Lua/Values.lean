import Scratchpad.Lua.Meaning

/-!
# What holds of values and stores

Data that a computation handles may hold values; `All V` says of such data that all values in it satisfy `V`. An
`Invariant` says what is to hold while programs run: of the values that they handle, and of the store. It is `Sound` if
values that are read from the store are among those that may be handled, and if the only values that may be missing
there are the functions that record what evaluations print.
-/

namespace Scratchpad.Lua

/-! ## Values in data -/

/-- Data that may hold values. -/
class HasValues (α : Type) where
  /-- All values in the data satisfy a property. -/
  All : (Value → Prop) → α → Prop
  all_of_forall : ∀ {V : Value → Prop}, (∀ v, V v) → ∀ a, All V a

export HasValues (All)

namespace HasValues

variable {α β : Type}

/-- Data without values. -/
@[reducible] def empty : HasValues α := ⟨fun _ _ => True, fun _ _ => trivial⟩

instance : HasValues Value := ⟨fun V v => V v, fun h v => h v⟩

instance [HasValues α] : HasValues (List α) :=
  ⟨fun V as => ∀ a ∈ as, All V a, fun h _ _ _ => all_of_forall h _⟩

instance [HasValues α] : HasValues (Option α) :=
  ⟨fun V o => ∀ a ∈ o, All V a, fun h _ _ _ => all_of_forall h _⟩

instance [HasValues α] [HasValues β] : HasValues (α × β) :=
  ⟨fun V p => All V p.1 ∧ All V p.2, fun h _ => ⟨all_of_forall h _, all_of_forall h _⟩⟩

instance : HasValues Unit := empty

instance : HasValues Bool := empty

instance : HasValues Nat := empty

instance : HasValues Int64 := empty

instance : HasValues Binary64 := empty

instance : HasValues Number := empty

instance : HasValues Bytes := empty

instance : HasValues Site := empty

/-- What surrounds the code of a function holds the extra arguments. -/
instance : HasValues Context := ⟨fun V ctx => All V ctx.extra, fun h _ => all_of_forall h _⟩

instance : HasValues Flow where
  All V
    | .ret vs => All V vs
    | _ => True
  all_of_forall h flow := by
    cases flow with
    | ret vs => exact all_of_forall h vs
    | _ => trivial

instance : HasValues Loop where
  All V
    | .whileLoop _ _ ctx => All V ctx
    | .repeatLoop _ ctx => All V ctx
    | .counting _ _ _ _ ctx => All V ctx
    | .stepping _ _ _ _ ctx => All V ctx
    | .generic f state control _ _ _ ctx => V f ∧ V state ∧ V control ∧ All V ctx
    | .labelled _ _ ctx => All V ctx
  all_of_forall h l := by
    cases l with
    | generic f state control _ _ _ ctx => exact ⟨h f, h state, h control, all_of_forall h ctx⟩
    | _ => exact all_of_forall h (α := Context) _

instance : HasValues Meaning.Place where
  All V
    | .cell _ => True
    | .field obj key _ _ => V obj ∧ V key
  all_of_forall h p := by
    cases p with
    | cell _ => trivial
    | field obj key _ _ => exact ⟨h obj, h key⟩

instance : HasValues String := empty

instance [HasValues α] [HasValues β] : HasValues (Except α β) where
  All V
    | .ok b => All V b
    | .error a => All V a
  all_of_forall h r := by
    cases r with
    | ok b => exact all_of_forall h b
    | error a => exact all_of_forall h a

variable {V : Value → Prop}

theorem all_nil [HasValues α] : All V ([] : List α) :=
  fun _ ha => absurd ha List.not_mem_nil

theorem all_cons [HasValues α] {a : α} {as : List α} (ha : All V a) (has : All V as) : All V (a :: as) :=
  List.forall_mem_cons.2 ⟨ha, has⟩

theorem all_singleton [HasValues α] {a : α} (ha : All V a) : All V [a] :=
  all_cons ha all_nil

theorem all_none [HasValues α] : All V (Option.none : Option α) := by
  intro a ha
  cases ha

theorem all_some [HasValues α] {a : α} (ha : All V a) : All V (some a) := by
  intro b hb
  cases hb
  exact ha

end HasValues

open HasValues

/-! ## Invariants -/

/-- What is to hold while programs run. -/
structure Invariant where
  /-- Of the values that are handled. -/
  value : Value → Prop
  store : Store → Prop

namespace Invariant

/-- The values that are read from the store may be handled, and so may all that are no functions that record lines. -/
structure Sound (I : Invariant) : Prop where
  plain : ∀ {v}, (∀ n, v ≠ .builtin (.capture n)) → I.value v
  cell : ∀ {s}, I.store s → ∀ i, I.value (s.cell i)
  entry : ∀ {s}, I.store s → ∀ id k, I.value (s.rawGet id k)
  next : ∀ {s}, I.store s → ∀ id k, All I.value ((s.table id).next? k)

namespace Sound

variable {I : Invariant} (h : I.Sound)

include h

theorem nil : I.value .nil :=
  h.plain nofun

theorem bool (b : Bool) : I.value (.bool b) :=
  h.plain nofun

theorem int (i : Int64) : I.value (.int i) :=
  h.plain nofun

theorem float (x : Binary64) : I.value (.float x) :=
  h.plain nofun

theorem str (s : Bytes) : I.value (.str s) :=
  h.plain nofun

theorem table (id : Nat) : I.value (.table id) :=
  h.plain nofun

theorem number (x : Number) : I.value (.ofNumber x) := by
  cases x with
  | int i => exact h.int i
  | float x => exact h.float x

/-- Arithmetic yields numbers. -/
theorem arith {op : BinOp} {m n : Number} {v : Value} (hv : Arith.binary op m n = .ok v) : I.value v := by
  have hints : ∀ r : Except ArithError Int64, r.map Value.int = .ok v → I.value v := by
    intro r hr
    cases r with
    | error e => cases hr
    | ok i =>
      cases hr
      exact h.int i
  unfold Arith.binary at hv
  split at hv
  · split at hv
    · exact hints _ hv
    · cases hv
    · cases hv
  · split at hv
    · split at hv
      · cases hv
        exact h.float _
      · exact hints _ hv
    · cases hv
      exact h.float _

theorem first {vs : List Value} (hvs : All I.value vs) : I.value (Operation.first vs) := by
  cases vs with
  | nil => exact h.nil
  | cons v _ => exact hvs v List.mem_cons_self

theorem getD {vs : List Value} (hvs : All I.value vs) (i : Nat) : I.value (vs.getD i .nil) := by
  rw [List.getD_eq_getElem?_getD]
  cases hi : vs[i]? with
  | none => exact h.nil
  | some v => exact hvs v (List.mem_of_getElem? hi)

theorem metamethod {s : Store} (hs : I.store s) (v : Value) (event : Bytes) : I.value (s.metamethod v event) := by
  rw [Store.metamethod]
  split
  · exact h.entry hs _ _
  · exact h.nil

end Sound

/-- The invariant that says nothing. -/
def vacuous : Invariant := ⟨fun _ => True, fun _ => True⟩

theorem all_vacuous {α : Type} [HasValues α] (a : α) : All vacuous.value a :=
  all_of_forall (fun _ => trivial) a

theorem sound_vacuous : vacuous.Sound where
  plain _ := trivial
  cell _ _ := trivial
  entry _ _ _ := trivial
  next _ _ _ := all_vacuous _

end Invariant

end Scratchpad.Lua
