import Scratchpad.Proofs.Lua.Values

/-!
# What expressions inherit from their steps

An expression reads the store, makes tables and functions, sets fields, calls functions and fails; everything else it
does is one of these after another. A property of computations that these have under an invariant, as long as the values
in them satisfy it, and that goes from a computation and what follows it to both of them, is `Closed`. Main statement:
the operations of the language and the expressions have every closed property (`Closed.eval`, `Closed.evalList`).
-/

namespace Scratchpad.Lua.Comp

/-- A property of computations that expressions inherit from their steps. What follows a computation only gets values
that satisfy the invariant. -/
structure Closed (I : Invariant) (P : ∀ ⦃α : Type⦄ [HasValues α], Comp α → Prop) : Prop where
  pure : ∀ {α : Type} [HasValues α] {a : α}, All I.value a → P (Pure.pure a : Comp α)
  bind : ∀ {α β : Type} [HasValues α] [HasValues β] {c : Comp α} {f : α → Comp β}, P c →
    (∀ a, All I.value a → P (f a)) → P (c >>= f)
  fail : ∀ {α : Type} [HasValues α] {e : Value}, I.value e → P (Comp.fail e : Comp α)
  read : ∀ {α : Type} [HasValues α] {f : Store → α}, (∀ s, I.store s → All I.value (f s)) → P (Comp.read f)
  call : ∀ {f args}, I.value f → All I.value args → ∀ site, P (Comp.call f args site)
  setEntry : ∀ {k v}, I.value k → I.value v → ∀ id, P (Comp.update fun s => s.rawSet id k v)
  fillItems : ∀ {vs}, All I.value vs → ∀ id, P (Comp.update fun s => s.modifyTable id (Meaning.fillItems vs))
  /-- A table that a constructor makes. -/
  construct : ∀ count room, P (Comp.newTable { items := Array.replicate count .nil, room })
  newClosure : ∀ c, P (Comp.newClosure c)

namespace Closed

open Operation HasValues

variable {I : Invariant} {P : ∀ ⦃α : Type⦄ [HasValues α], Comp α → Prop} (h : Closed I P) (hI : I.Sound)
  {α β : Type} [HasValues α] [HasValues β]

include h

theorem map {c : Comp α} {f : α → β} (hc : P c) (hf : ∀ a, All I.value a → All I.value (f a)) : P (f <$> c) :=
  h.bind hc fun a ha => h.pure (hf a ha)

include hI

/-! ## Errors and metamethods -/

variable {a b v : Value}

theorem raise (spot : Spot) (message : Bytes) : P (Operation.raise spot message : Comp α) :=
  h.fail (hI.str _)

theorem typeError (spot : Spot) (action : String) (v : Value) (o : Option Origin) :
    P (Operation.typeError spot action v o : Comp α) :=
  h.bind (h.read fun _ _ => trivial) fun _ _ => h.raise hI spot _

theorem callMeta {f : Value} {args : List Value} (hf : I.value f) (hargs : All I.value args) (spot : Spot)
    (event : String) : P (Operation.callMeta spot event f args) :=
  h.map (h.call hf hargs _) fun _ hvs => hI.first hvs

theorem binaryHandler (event : String) (a b : Value) : P (Operation.binaryHandler event a b) := by
  refine h.read fun s hs => ?_
  dsimp only
  split <;> exact hI.metamethod hs _ _

/-! ## Fields -/

section Fields

variable {obj key : Value}

theorem indexFrom (spot : Spot) (fuel : Nat) (hobj : I.value obj) (hkey : I.value key) (o : Option Origin) :
    P (Operation.indexFrom spot fuel obj key o) := by
  induction fuel generalizing obj o with
  | zero => exact h.raise hI spot _
  | succ fuel ih =>
    refine h.bind (h.read fun s hs => ?_) fun ⟨found, handler⟩ ⟨hfound, hhandler⟩ => ?_
    · split
      · refine ⟨hI.entry hs _ _, ?_⟩
        dsimp only
        split
        · exact hI.metamethod hs _ _
        · exact hI.nil
      · exact ⟨hI.nil, hI.metamethod hs _ _⟩
    · dsimp only
      split
      · split
        · exact h.pure hfound
        · exact h.typeError hI ..
      · split
        · exact h.callMeta hI hhandler (all_cons hobj (all_singleton hkey)) ..
        · exact ih hhandler none

theorem index (spot : Spot) (hobj : I.value obj) (hkey : I.value key) (o : Option Origin) :
    P (Operation.index spot obj key o) :=
  h.indexFrom hI spot _ hobj hkey o

theorem rawSet (spot : Spot) (id : Nat) (hkey : I.value key) (hv : I.value v) :
    P (Operation.rawSet spot id key v) := by
  unfold Operation.rawSet
  split
  · exact h.raise hI spot _
  · exact h.setEntry hkey hv id

theorem setIndexFrom (spot : Spot) (fuel : Nat) (hobj : I.value obj) (hkey : I.value key) (hv : I.value v)
    (o : Option Origin) : P (Operation.setIndexFrom spot fuel obj key v o) := by
  induction fuel generalizing obj o with
  | zero => exact h.raise hI spot _
  | succ fuel ih =>
    refine h.bind (h.read fun s hs => ?_) fun handler hhandler => ?_
    · split
      · split
        · exact hI.metamethod hs _ _
        · exact hI.nil
      · exact hI.metamethod hs _ _
    · split
      · split
        · exact h.rawSet hI spot _ hkey hv
        · exact h.typeError hI ..
      · split
        · have hargs : All I.value [obj, key, v] := all_cons hobj (all_cons hkey (all_singleton hv))
          exact h.bind (h.call hhandler hargs _) fun _ _ => h.pure trivial
        · exact ih hhandler none

theorem setIndex (spot : Spot) (hobj : I.value obj) (hkey : I.value key) (hv : I.value v) (o : Option Origin) :
    P (Operation.setIndex spot obj key v o) :=
  h.setIndexFrom hI spot _ hobj hkey hv o

end Fields

/-! ## Arithmetic -/

theorem operandError (spot : Spot) (action : String) (a b : Value) (oa ob : Option Origin) :
    P (Operation.operandError spot action a b oa ob : Comp α) := by
  unfold Operation.operandError
  split <;> exact h.typeError hI ..

theorem arithError (spot : Spot) (e : ArithError) (oa ob : Option Origin) :
    P (Operation.arithError spot e oa ob : Comp α) := by
  unfold Operation.arithError
  split <;> exact h.raise hI ..

theorem arith (spot : Spot) (op : BinOp) (ha : I.value a) (hb : I.value b) (oa ob : Option Origin) :
    P (Operation.arith spot op a b oa ob) := by
  unfold Operation.arith
  split
  · split
    · rename_i v hv
      exact h.pure (hI.arith hv)
    · exact h.arithError hI ..
  · refine h.bind (h.binaryHandler hI ..) fun handler hhandler => ?_
    split
    · exact h.operandError hI ..
    · exact h.callMeta hI hhandler (all_cons ha (all_singleton hb)) ..

theorem negate (spot : Spot) (ha : I.value a) (o : Option Origin) : P (Operation.negate spot a o) := by
  unfold Operation.negate
  split
  · exact h.pure (hI.int _)
  · exact h.pure (hI.float _)
  · refine h.bind (h.binaryHandler hI ..) fun handler hhandler => ?_
    split
    · exact h.typeError hI ..
    · exact h.callMeta hI hhandler (all_cons ha (all_singleton ha)) ..

theorem complement (spot : Spot) (ha : I.value a) (o : Option Origin) : P (Operation.complement spot a o) := by
  unfold Operation.complement
  split
  · split
    · exact h.pure (hI.int _)
    · exact h.arithError hI ..
  · refine h.bind (h.binaryHandler hI ..) fun handler hhandler => ?_
    split
    · exact h.typeError hI ..
    · exact h.callMeta hI hhandler (all_cons ha (all_singleton ha)) ..

/-! ## Concatenation and length -/

theorem concat (spot : Spot) (ha : I.value a) (hb : I.value b) (oa ob : Option Origin) :
    P (Operation.concat spot a b oa ob) := by
  unfold Operation.concat
  split
  · exact h.pure (hI.str _)
  · refine h.bind (h.binaryHandler hI ..) fun handler hhandler => ?_
    split
    · split <;> exact h.typeError hI ..
    · exact h.callMeta hI hhandler (all_cons ha (all_singleton hb)) ..

theorem length (spot : Spot) (ha : I.value a) (o : Option Origin) : P (Operation.length spot a o) := by
  unfold Operation.length
  split
  · exact h.pure (hI.int _)
  · refine h.bind (h.read fun s hs => hI.metamethod hs _ _) fun handler hhandler => ?_
    split
    · split
      · exact h.read fun _ _ => hI.int _
      · exact h.typeError hI ..
    · exact h.callMeta hI hhandler (all_cons ha (all_singleton ha)) ..

/-! ## Comparison -/

theorem orderError (spot : Spot) (a b : Value) : P (Operation.orderError spot a b : Comp α) := by
  refine h.bind (h.read (α := Bytes × Bytes) fun _ _ => ⟨trivial, trivial⟩) fun ⟨first, second⟩ _ => ?_
  dsimp only
  split <;> exact h.raise hI ..

theorem order (numbers : Number → Number → Bool) (strings : Bytes → Bytes → Bool) (event : String) (spot : Spot)
    (ha : I.value a) (hb : I.value b) : P (Operation.order numbers strings event spot a b) := by
  unfold Operation.order
  split
  · exact h.pure trivial
  · split
    · exact h.pure trivial
    · refine h.bind (h.binaryHandler hI ..) fun handler hhandler => ?_
      split
      · exact h.orderError hI ..
      · exact h.map (h.callMeta hI hhandler (all_cons ha (all_singleton hb)) ..) fun _ _ => trivial

theorem lessThan (spot : Spot) (ha : I.value a) (hb : I.value b) : P (Operation.lessThan spot a b) :=
  h.order hI _ _ _ spot ha hb

theorem lessEqual (spot : Spot) (ha : I.value a) (hb : I.value b) : P (Operation.lessEqual spot a b) :=
  h.order hI _ _ _ spot ha hb

theorem equal (spot : Spot) (ha : I.value a) (hb : I.value b) : P (Operation.equal spot a b) := by
  unfold Operation.equal
  split
  · exact h.pure trivial
  · split
    · refine h.bind (h.binaryHandler hI ..) fun handler hhandler => ?_
      split
      · exact h.pure trivial
      · exact h.map (h.callMeta hI hhandler (all_cons ha (all_singleton hb)) ..) fun _ _ => trivial
    · exact h.pure trivial

theorem binary (spot : Spot) (op : BinOp) (ha : I.value a) (hb : I.value b) (oa ob : Option Origin) :
    P (Operation.binary spot op a b oa ob) := by
  have htruth : ∀ {c : Comp Bool} {f : Bool → Bool}, P c → P ((fun r => Value.bool (f r)) <$> c) :=
    fun hc => h.map hc fun _ _ => hI.bool _
  unfold Operation.binary
  split
  · exact h.concat hI spot ha hb ..
  · exact htruth (h.equal hI spot ha hb)
  · exact htruth (h.equal hI spot ha hb)
  · exact htruth (h.lessThan hI spot ha hb)
  · exact htruth (h.lessEqual hI spot ha hb)
  · exact htruth (h.lessThan hI spot hb ha)
  · exact htruth (h.lessEqual hI spot hb ha)
  · exact h.arith hI spot _ ha hb ..

theorem unary (spot : Spot) (op : UnOp) (ha : I.value a) (o : Option Origin) :
    P (Operation.unary spot op a o) := by
  cases op with
  | not => exact h.pure (hI.bool _)
  | neg => exact h.negate hI spot ha o
  | len => exact h.length hI spot ha o
  | bnot => exact h.complement hI spot ha o

/-! ## Text -/

theorem toText (spot : Spot) (hv : I.value v) {fail : Comp Bytes} (hfail : P fail) :
    P (Operation.toText spot v fail) := by
  refine h.bind (h.read fun s hs => hI.metamethod hs _ _) fun handler hhandler => ?_
  split
  · exact h.read fun _ _ => trivial
  · refine h.bind (h.callMeta hI hhandler (all_singleton hv) ..) fun r _ => ?_
    split
    · exact h.pure trivial
    · split
      · exact h.pure trivial
      · exact hfail

/-! ## Expressions -/

variable {ctx : Context}

mutual

/-- An expression has every closed property. -/
theorem eval (hctx : All I.value ctx) : ∀ e : Expr, P (Meaning.eval ctx e)
  | .nil => by
    rw [Meaning.eval]
    exact h.pure (all_singleton hI.nil)
  | .bool b => by
    rw [Meaning.eval]
    exact h.pure (all_singleton (hI.bool b))
  | .number n => by
    rw [Meaning.eval]
    exact h.pure (all_singleton (hI.number n))
  | .str s => by
    rw [Meaning.eval]
    exact h.pure (all_singleton (hI.str s))
  | .dots => by
    rw [Meaning.eval]
    exact h.pure hctx
  | .var v => by
    rw [Meaning.eval]
    exact h.read fun s hs => all_singleton (hI.cell hs _)
  | .index obj key line => by
    rw [Meaning.eval]
    refine h.bind (eval hctx obj) fun o ho => h.bind (eval hctx key) fun k hk => ?_
    exact h.bind (h.index hI _ (hI.first ho) (hI.first hk) _) fun r hr => h.pure (all_singleton hr)
  | .call fn args line => by
    rw [Meaning.eval]
    exact h.bind (eval hctx fn) fun f hf => h.bind (evalList hctx args) fun vs hvs => h.call (hI.first hf) hvs _
  | .method obj name args nameLine line => by
    rw [Meaning.eval]
    refine h.bind (eval hctx obj) fun o ho => h.bind (h.index hI _ (hI.first ho) (hI.str name) _) fun f hf => ?_
    exact h.bind (evalList hctx args) fun vs hvs => h.call hf (all_cons (hI.first ho) hvs) _
  | .function f => by
    rw [Meaning.eval]
    exact h.bind (h.newClosure _) fun v hv => h.pure (all_singleton hv)
  | .unary op e line => by
    rw [Meaning.eval]
    exact h.bind (eval hctx e) fun v hv => h.bind (h.unary hI _ op (hI.first hv) _) fun r hr => h.pure (all_singleton hr)
  | .binary op l r line => by
    rw [Meaning.eval]
    refine h.bind (eval hctx l) fun a ha => h.bind (eval hctx r) fun b hb => ?_
    exact h.bind (h.binary hI _ op (hI.first ha) (hI.first hb) _ _) fun c hc => h.pure (all_singleton hc)
  | .and l r => by
    rw [Meaning.eval]
    refine h.bind (eval hctx l) fun a ha => ?_
    dsimp only
    split
    · exact h.map (eval hctx r) fun b hb => all_singleton (hI.first hb)
    · exact h.pure (all_singleton (hI.first ha))
  | .or l r => by
    rw [Meaning.eval]
    refine h.bind (eval hctx l) fun a ha => ?_
    dsimp only
    split
    · exact h.pure (all_singleton (hI.first ha))
    · exact h.map (eval hctx r) fun b hb => all_singleton (hI.first hb)
  | .paren e => by
    rw [Meaning.eval]
    exact h.map (eval hctx e) fun vs hvs => all_singleton (hI.first hvs)
  | .table fields => by
    rw [Meaning.eval]
    refine h.bind (h.construct ..) fun t ht => ?_
    split
    · exact h.bind (evalFields hctx _ fields) fun vs hvs => h.bind (h.fillItems hvs _) fun _ _ =>
        h.pure (all_singleton ht)
    · exact h.pure (all_singleton ht)

theorem evalList (hctx : All I.value ctx) : ∀ es : List Expr, P (Meaning.evalList ctx es)
  | [] => by
    rw [Meaning.evalList]
    exact h.pure all_nil
  | [e] => by
    rw [Meaning.evalList]
    exact h.bind (eval hctx e) fun vs hvs => h.pure hvs
  | e :: e' :: es => by
    rw [Meaning.evalList]
    refine h.bind (eval hctx e) fun vs hvs => h.bind (evalList hctx (e' :: es)) fun rest hrest => ?_
    exact h.pure (all_cons (hI.first hvs) hrest)

theorem evalFields (hctx : All I.value ctx) (id : Nat) : ∀ fs : List Field, P (Meaning.evalFields ctx id fs)
  | [] => by
    rw [Meaning.evalFields]
    exact h.pure all_nil
  | [.item e] => by
    rw [Meaning.evalFields]
    exact h.bind (eval hctx e) fun vs hvs => h.pure hvs
  | .item e :: f :: fs => by
    rw [Meaning.evalFields]
    refine h.bind (eval hctx e) fun vs hvs => h.bind (evalFields hctx id (f :: fs)) fun rest hrest => ?_
    exact h.pure (all_cons (hI.first hvs) hrest)
  | .keyed k v line :: fs => by
    rw [Meaning.evalFields]
    refine h.bind (eval hctx k) fun key hkey => h.bind (eval hctx v) fun value hvalue => ?_
    exact h.bind (h.rawSet hI _ id (hI.first hkey) (hI.first hvalue)) fun _ _ => evalFields hctx id fs

end

theorem evalOne (hctx : All I.value ctx) (e : Expr) : P (Meaning.evalOne ctx e) :=
  h.map (h.eval hI hctx e) fun _ hvs => hI.first hvs

theorem evalCond (hctx : All I.value ctx) (e : Expr) : P (Meaning.evalCond ctx e) :=
  h.map (h.eval hI hctx e) fun _ _ => trivial

end Closed

end Scratchpad.Lua.Comp
