import Scratchpad.Proofs.Lua.Closed

/-!
# Invariants that programs keep

A program changes the store in few ways. An invariant that each of them keeps, if the values that it puts there satisfy
the invariant, is `Lasting`; a computation `Keeps` an invariant if all its changes do and all values that it gives away
satisfy it, as long as what comes back from calls and coroutines does. Main statement: the statements of the language,
the rounds of loops and the bodies of functions keep every lasting invariant (`keeps_execList`, `keeps_round`,
`keeps_invoke`).
-/

namespace Scratchpad.Lua

open HasValues

/-- An invariant that every change that a program can make keeps. -/
structure Invariant.Lasting (I : Invariant) : Prop extends I.Sound where
  setCell : ∀ {s v}, I.store s → I.value v → ∀ i, I.store (s.setCell i v)
  pushCells : ∀ {s vs}, I.store s → All I.value vs → I.store (s.pushCells vs)
  pushClosure : ∀ {s}, I.store s → ∀ c, I.store (s.pushClosure c)
  setEntry : ∀ {s k v}, I.store s → I.value k → I.value v → ∀ id, I.store (s.rawSet id k v)
  fillItems : ∀ {s vs}, I.store s → All I.value vs → ∀ id, I.store (s.modifyTable id (Meaning.fillItems vs))
  /-- A table that a constructor makes. -/
  construct : ∀ {s}, I.store s → ∀ count room, I.store (s.pushTable { items := Array.replicate count .nil, room })
  /-- A table of arguments with their number. -/
  pack : ∀ {s} {vs : List Value}, I.store s → All I.value vs →
    I.store (s.pushTable ((Table.ofItems vs 1).set (.ofString "n") (.ofNat vs.length)))
  setMetatable : ∀ {s}, I.store s → ∀ id mt, I.store (s.modifyTable id fun t => { t with metatable := mt })
  print : ∀ {s}, I.store s → ∀ lines, I.store { s with printed := lines }

instance : LawfulMonad Comp :=
  .mk' _ (fun _ => rfl) (fun _ _ => rfl) fun _ _ _ => rfl

section Keeps

variable (I : Invariant) {α β : Type} [HasValues α] [HasValues β]

/-- All changes that the computation makes keep `I`, and all values that it gives away satisfy it. -/
def Prog.Keeps : Prog → Prop
  | .done vs => All I.value vs
  | .fail e => I.value e
  | .query f => ∀ s, I.store s → (f s).Keeps
  | .update f k => (∀ s, I.store s → I.store (f s)) ∧ k.Keeps
  | .call f args _ k => I.value f ∧ All I.value args ∧ ∀ vs, All I.value vs → (k vs).Keeps
  | .tailCall f args _ k => I.value f ∧ All I.value args ∧ ∀ vs, All I.value vs → (k vs).Keeps
  | .protect f args handler k =>
    I.value f ∧ All I.value args ∧ All I.value handler ∧ ∀ ok vs, All I.value vs → (k ok vs).Keeps
  | .loop l k => All I.value l ∧ ∀ flow, All I.value flow → (k flow).Keeps
  | .again l => All I.value l
  | .leave flow => All I.value flow
  | .closing v _ body k => I.value v ∧ body.Keeps ∧ ∀ flow, All I.value flow → (k flow).Keeps
  | .callers k => ∀ sites, (k sites).Keeps
  | .yield vs k => All I.value vs ∧ ∀ vs, All I.value vs → (k vs).Keeps
  | .spawn f k => I.value f ∧ ∀ id, (k id).Keeps
  | .resume _ args _ k => All I.value args ∧ ∀ ok vs, All I.value vs → (k ok vs).Keeps
  | .status _ k => ∀ status, (k status).Keeps
  | .running k => ∀ id, (k id).Keeps
  | .yieldable _ k => ∀ b, (k b).Keeps

/-- The computation keeps `I` if what follows it does. -/
structure Comp.Keeps (c : Comp α) : Prop where
  before : ∀ k : α → Prog, (∀ a, All I.value a → (k a).Keeps I) → (c k).Keeps I

variable {I} {c : Comp α} {f : α → Comp β}

theorem Comp.keeps_pure {a : α} (ha : All I.value a) : Comp.Keeps I (pure a) :=
  ⟨fun _ hk => hk a ha⟩

theorem Comp.Keeps.bind (hc : Comp.Keeps I c) (hf : ∀ a, All I.value a → Comp.Keeps I (f a)) :
    Comp.Keeps I (c >>= f) :=
  ⟨fun k hk => hc.before _ fun a ha => (hf a ha).before k hk⟩

theorem Comp.Keeps.map {g : α → β} (hc : Comp.Keeps I c) (hg : ∀ a, All I.value a → All I.value (g a)) :
    Comp.Keeps I (g <$> c) :=
  ⟨fun _ hk => hc.before _ fun a ha => hk (g a) (hg a ha)⟩

theorem Comp.keeps_ite {p : Prop} [Decidable p] {c' : Comp α} (hc : Comp.Keeps I c) (hc' : Comp.Keeps I c') :
    Comp.Keeps I (if p then c else c') := by
  split
  · exact hc
  · exact hc'

theorem Comp.keeps_fail {e : Value} (he : I.value e) : Comp.Keeps I (Comp.fail e : Comp α) :=
  ⟨fun _ _ => he⟩

theorem Comp.keeps_read {f : Store → α} (hf : ∀ s, I.store s → All I.value (f s)) : Comp.Keeps I (Comp.read f) :=
  ⟨fun _ hk s hs => hk (f s) (hf s hs)⟩

theorem Comp.keeps_update {f : Store → Store} (hf : ∀ s, I.store s → I.store (f s)) : Comp.Keeps I (Comp.update f) :=
  ⟨fun _ hk => ⟨hf, hk () trivial⟩⟩

variable (h : I.Lasting)

include h

theorem Comp.keeps_newCells {vs : List Value} (hvs : All I.value vs) : Comp.Keeps I (Comp.newCells vs) :=
  ⟨fun _ hk _ _ => ⟨fun _ hs => h.pushCells hs hvs, hk _ fun _ _ => trivial⟩⟩

theorem Comp.keeps_closed : Comp.Closed I fun α _ (c : Comp α) => Comp.Keeps I c where
  pure := keeps_pure
  bind := Keeps.bind
  fail := keeps_fail
  read := keeps_read
  call hf hargs _ := ⟨fun _ hk => ⟨hf, hargs, hk⟩⟩
  setEntry hk hv id := keeps_update fun _ hs => h.setEntry hs hk hv id
  fillItems hvs id := keeps_update fun _ hs => h.fillItems hs hvs id
  construct count room := ⟨fun _ hk _ _ => ⟨fun _ hs => h.construct hs count room, hk _ (h.table _)⟩⟩
  newClosure c := ⟨fun _ hk _ _ => ⟨fun _ hs => h.pushClosure hs c, hk _ (h.plain nofun)⟩⟩

end Keeps

/-! ## Statements -/

namespace Meaning

open Operation

variable {I : Invariant} (h : I.Lasting) {ctx : Context}

include h

theorem keeps_eval (hctx : All I.value ctx) (e : Expr) : Comp.Keeps I (eval ctx e) :=
  (Comp.keeps_closed h).eval h.toSound hctx e

theorem keeps_evalList (hctx : All I.value ctx) (es : List Expr) : Comp.Keeps I (evalList ctx es) :=
  (Comp.keeps_closed h).evalList h.toSound hctx es

theorem keeps_evalOne (hctx : All I.value ctx) (e : Expr) : Comp.Keeps I (evalOne ctx e) :=
  (Comp.keeps_closed h).evalOne h.toSound hctx e

theorem keeps_evalCond (hctx : All I.value ctx) (e : Expr) : Comp.Keeps I (evalCond ctx e) :=
  (Comp.keeps_closed h).evalCond h.toSound hctx e

theorem keeps_raise {α : Type} [HasValues α] (spot : Spot) (message : Bytes) :
    Comp.Keeps I (raise spot message : Comp α) :=
  (Comp.keeps_closed h).raise h.toSound spot message

theorem keeps_store {p : Place} {v : Value} (hp : All I.value p) (hv : I.value v) :
    Comp.Keeps I (store ctx p v) := by
  cases p with
  | cell i => exact Comp.keeps_update fun _ hs => h.setCell hs hv i
  | field obj key o line => exact (Comp.keeps_closed h).setIndex h.toSound _ hp.1 hp.2 hv o

theorem keeps_storeAll {ps : List Place} {vs : List Value} (hps : All I.value ps) (hvs : All I.value vs) :
    Comp.Keeps I (storeAll ctx ps vs) := by
  induction ps generalizing vs with
  | nil => exact Comp.keeps_pure trivial
  | cons p ps ih =>
    obtain ⟨hp, hps⟩ := List.forall_mem_cons.1 hps
    cases vs with
    | nil => exact Comp.keeps_pure trivial
    | cons v vs =>
      obtain ⟨hv, hvs⟩ := List.forall_mem_cons.1 hvs
      exact (ih hps hvs).bind fun _ _ => keeps_store h hp hv

theorem keeps_evalPlace (hctx : All I.value ctx) (e : Expr) : Comp.Keeps I (evalPlace ctx e) := by
  unfold evalPlace
  split
  · exact Comp.keeps_pure trivial
  · exact (keeps_evalOne h hctx _).bind fun _ ho => (keeps_evalOne h hctx _).bind fun _ hk =>
      Comp.keeps_pure ⟨ho, hk⟩
  · exact Comp.keeps_pure trivial

theorem keeps_evalPlaces (hctx : All I.value ctx) (es : List Expr) : Comp.Keeps I (evalPlaces ctx es) := by
  induction es with
  | nil => exact Comp.keeps_pure all_nil
  | cons e es ih =>
    exact (keeps_evalPlace h hctx e).bind fun _ hp => ih.bind fun _ hps => Comp.keeps_pure (all_cons hp hps)

/-- Places without a value get `nil`. -/
theorem all_adjust {vs : List Value} (hvs : All I.value vs) (n : Nat) : All I.value (adjust n vs) := by
  induction n generalizing vs with
  | zero => exact all_nil
  | succ n ih =>
    cases vs with
    | nil => exact all_cons h.nil (ih all_nil)
    | cons v vs =>
      obtain ⟨hv, hvs⟩ := List.forall_mem_cons.1 hvs
      exact all_cons hv (ih hvs)

omit h in
theorem keeps_runLoop {l : Loop} (hl : All I.value l) : Comp.Keeps I (runLoop l) :=
  ⟨fun _ hk => ⟨hl, hk⟩⟩

omit h in
theorem keeps_tailCall {f : Value} {args : List Value} (hf : I.value f) (hargs : All I.value args) (site : Site) :
    Comp.Keeps I (tailCall f args site) :=
  ⟨fun _ hk => ⟨hf, hargs, fun vs hvs => hk (.ret vs) hvs⟩⟩

theorem keeps_closing (spot : Spot) (name : Bytes) {v : Value} (hv : I.value v) {body : Comp Flow}
    (hbody : Comp.Keeps I body) : Comp.Keeps I (closing spot name v body) := by
  unfold closing
  split
  · refine (Comp.keeps_read fun s hs => h.metamethod hs _ _).bind fun handler _ => ?_
    refine Comp.keeps_ite (keeps_raise h ..) ⟨fun k hk => ⟨hv, hbody.before _ fun _ hflow => hflow, hk⟩⟩
  · exact hbody

theorem keeps_boundError {α : Type} [HasValues α] (spot : Spot) (what : String) (v : Value) :
    Comp.Keeps I (boundError spot what v : Comp α) :=
  (Comp.keeps_read (α := Bytes) fun _ _ => trivial).bind fun _ _ => keeps_raise h ..

theorem keeps_countingLoop (hctx : All I.value ctx) (spot : Spot) (start stop step : Value) (body : List Stmt) :
    Comp.Keeps I (countingLoop spot start stop step body ctx) := by
  have hnone : Comp.Keeps I (pure none : Comp (Option Loop)) := Comp.keeps_pure all_none
  have hsome : ∀ l : Loop, All I.value l → Comp.Keeps I (pure (some l) : Comp (Option Loop)) :=
    fun l hl => Comp.keeps_pure (all_some hl)
  unfold countingLoop
  split
  · split
    · exact keeps_raise h ..
    · split
      · exact keeps_boundError h ..
      · split
        · exact hnone
        · exact hsome _ hctx
  · split
    · exact keeps_boundError h ..
    · split
      · exact keeps_boundError h ..
      · split
        · exact keeps_boundError h ..
        · dsimp only
          split
          · exact keeps_raise h ..
          · split <;> exact Comp.keeps_ite hnone (hsome _ hctx)

omit h in
theorem keeps_asBlock (hctx : All I.value ctx) (body : List Stmt) {row : Comp Flow} (hrow : Comp.Keeps I row) :
    Comp.Keeps I (asBlock ctx body row) := by
  unfold asBlock
  split
  · exact keeps_runLoop hctx
  · exact hrow

theorem keeps_ret (hctx : All I.value ctx) (values : List Expr) (tail : Bool) :
    Comp.Keeps I (exec ctx (.ret values tail)) := by
  rw [exec.eq_def]
  dsimp only
  split
  · exact (keeps_evalOne h hctx _).bind fun _ hf => (keeps_evalList h hctx _).bind fun _ hvs =>
      keeps_tailCall hf hvs _
  · refine (keeps_evalOne h hctx _).bind fun _ ho => ?_
    refine ((Comp.keeps_closed h).index h.toSound _ ho (h.str _) _).bind fun _ hf => ?_
    exact (keeps_evalList h hctx _).bind fun _ hvs => keeps_tailCall hf (all_cons ho hvs) _
  · exact (keeps_evalList h hctx _).bind fun _ hvs => Comp.keeps_pure hvs

theorem keeps_genericFor (hctx : All I.value ctx) (count : Nat) (values : List Expr) (body : List Stmt)
    (line callLine : Nat) : Comp.Keeps I (exec ctx (.genericFor count values body line callLine)) := by
  rw [exec]
  refine (keeps_evalList h hctx values).bind fun vs hvs => ?_
  have hfour := all_adjust h hvs 4
  split
  · rename_i f state control closer hadjust
    simp only [hadjust, HasValues.All, List.forall_mem_cons] at hfour
    obtain ⟨hf, hstate, hcontrol, hcloser, -⟩ := hfour
    have hrounds := keeps_runLoop (I := I) (l := .generic f state control count body callLine ctx)
      ⟨hf, hstate, hcontrol, hctx⟩
    dsimp only
    split
    · exact keeps_closing h _ _ hcloser hrounds
    · exact hrounds
  · exact Comp.keeps_pure trivial

theorem keeps_assign (hctx : All I.value ctx) (targets values : List Expr) :
    Comp.Keeps I (exec ctx (.assign targets values)) := by
  have hmany : Comp.Keeps I (do
      let ps ← evalPlaces ctx targets
      let vs ← evalList ctx values
      storeAll ctx ps (adjust ps.length vs)
      return Flow.normal) :=
    (keeps_evalPlaces h hctx targets).bind fun ps hps => (keeps_evalList h hctx values).bind fun vs hvs =>
      (keeps_storeAll h hps (all_adjust h hvs _)).bind fun _ _ => Comp.keeps_pure trivial
  match targets with
  | [target] =>
    rw [exec]
    exact (keeps_evalPlace h hctx target).bind fun p hp => (keeps_evalList h hctx values).bind fun vs hvs =>
      (keeps_store h hp (h.first hvs)).bind fun _ _ => Comp.keeps_pure trivial
  | [] =>
    rw [exec]
    · exact hmany
    · simp
  | _ :: _ :: _ =>
    rw [exec]
    · exact hmany
    · simp

/-- What follows a statement that declares nothing. -/
def afterStatement (ctx : Context) (rest : List Stmt) (flow : Flow) : Comp Flow :=
  match flow with
  | .normal => execList ctx rest
  | flow => pure flow

omit h in
theorem execList_cons (ctx : Context) {s : Stmt} (hlocals : ∀ names values line, s ≠ .locals names values line)
    (hfunction : ∀ f, s ≠ .localFunction f) (rest : List Stmt) :
    execList ctx (s :: rest) = exec ctx s >>= afterStatement ctx rest := by
  rw [execList]
  · rfl
  · exact hlocals
  · exact hfunction

omit h in
/-- The variable to be closed has one of the values. -/
theorem value_closeTarget? {names : List (Bytes × Bool)} {vs : List Value} {name : Bytes} {v : Value}
    (hvs : All I.value vs) (hv : closeTarget? names vs = some (name, v)) : I.value v := by
  obtain ⟨e, he, heq⟩ := Option.map_eq_some_iff.1 hv
  cases heq
  exact hvs _ (List.of_mem_zip (List.mem_of_find?_eq_some he)).2

mutual

theorem keeps_exec {ctx : Context} (hctx : All I.value ctx) : ∀ s : Stmt, Comp.Keeps I (exec ctx s)
  | .assign targets values => keeps_assign h hctx targets values
  | .call e => by
    rw [exec]
    exact (keeps_eval h hctx e).bind fun _ _ => Comp.keeps_pure trivial
  | .block body => by
    rw [exec]
    exact keeps_asBlock hctx body (keeps_execList hctx body)
  | .whileLoop cond body => by
    rw [exec]
    exact keeps_runLoop hctx
  | .repeatLoop body => by
    rw [exec]
    exact keeps_runLoop hctx
  | .branch cond thenBody elseBody => by
    rw [exec]
    refine (keeps_evalCond h hctx cond).bind fun b _ => ?_
    split
    · exact keeps_asBlock hctx thenBody (keeps_execList hctx thenBody)
    · exact keeps_asBlock hctx elseBody (keeps_execList hctx elseBody)
  | .numericFor start stop step body line => by
    rw [exec]
    refine (keeps_evalOne h hctx start).bind fun _ _ => (keeps_evalOne h hctx stop).bind fun _ _ =>
      (keeps_evalOne h hctx step).bind fun _ _ =>
        (keeps_countingLoop h hctx _ _ _ _ body).bind fun l? hl => ?_
    cases l? with
    | some l => exact keeps_runLoop (hl l rfl)
    | none => exact Comp.keeps_pure trivial
  | .genericFor count values body line callLine => keeps_genericFor h hctx count values body line callLine
  | .ret values tail => keeps_ret h hctx values tail
  | .brk => by
    rw [exec]
    exact Comp.keeps_pure trivial
  | .goto name => by
    rw [exec]
    exact Comp.keeps_pure trivial
  | .locals _ _ _ | .localFunction _ | .label _ _ => Comp.keeps_pure trivial

theorem keeps_execList {ctx : Context} (hctx : All I.value ctx) : ∀ ss : List Stmt, Comp.Keeps I (execList ctx ss)
  | [] => by
    rw [execList]
    exact Comp.keeps_pure trivial
  | s :: rest => by
    have hs := keeps_exec hctx s
    have hrest := fun {ctx : Context} (hctx : All I.value ctx) => keeps_execList hctx rest
    by_cases hlocals : ∃ names values line, s = .locals names values line
    · obtain ⟨names, values, line, rfl⟩ := hlocals
      rw [execList]
      refine (keeps_evalList h hctx values).bind fun vs hvs => ?_
      have hadjust := all_adjust h hvs names.length
      refine (Comp.keeps_newCells h hadjust).bind fun cells _ => ?_
      have hinner : All I.value (extend ctx cells) := hctx
      dsimp only
      split
      · rename_i htarget
        exact keeps_closing h _ _ (value_closeTarget? hadjust htarget) (keeps_asBlock hinner rest (hrest hinner))
      · exact hrest hinner
    by_cases hfunction : ∃ f, s = .localFunction f
    · obtain ⟨f, rfl⟩ := hfunction
      rw [execList]
      refine (Comp.keeps_newCells h (all_singleton h.nil)).bind fun cells _ => ?_
      have hinner : All I.value (extend ctx cells) := hctx
      refine ((Comp.keeps_closed h).newClosure _).bind fun v hv => ?_
      exact (Comp.keeps_update fun _ hs => h.setCell hs hv _).bind fun _ _ => hrest hinner
    rw [execList_cons ctx (fun names values line hs => hlocals ⟨names, values, line, hs⟩) fun f hs => hfunction ⟨f, hs⟩]
    refine hs.bind fun flow hflow => ?_
    cases flow with
    | normal => exact hrest hctx
    | _ => exact Comp.keeps_pure hflow

end

theorem keeps_execBlock (hctx : All I.value ctx) (body : List Stmt) : Comp.Keeps I (execBlock ctx body) :=
  keeps_asBlock hctx body (keeps_execList h hctx body)

/-! ## Rounds and calls -/

omit h in
theorem keeps_afterBody (next : Loop) {flow : Flow} (hnext : All I.value next) (hflow : All I.value flow) :
    (afterBody next flow).Keeps I := by
  cases flow with
  | normal => exact hnext
  | brk => trivial
  | goto label scope => trivial
  | ret vs => exact hflow

theorem keeps_withValues (hctx : All I.value ctx) {vs : List Value} (hvs : All I.value vs) (body : List Stmt) :
    Comp.Keeps I (withValues ctx vs body) :=
  (Comp.keeps_newCells h hvs).bind fun cells _ =>
    keeps_execBlock h (show All I.value (extend ctx cells) from hctx) body

/-- A round of a loop keeps every lasting invariant. -/
theorem keeps_round {l : Loop} (hl : All I.value l) : (round l).Keeps I := by
  cases l with
  | whileLoop cond body ctx =>
    refine (keeps_evalCond h hl cond).before _ fun b _ => ?_
    cases b with
    | true => exact (keeps_execBlock h hl body).before _ fun flow hflow => keeps_afterBody _ hl hflow
    | false => trivial
  | repeatLoop body ctx => exact (keeps_execBlock h hl body).before _ fun flow hflow => keeps_afterBody _ hl hflow
  | counting i left step body ctx =>
    refine (keeps_withValues h hl (all_singleton (h.int i)) body).before _ fun flow hflow => ?_
    split
    · trivial
    · exact keeps_afterBody (.counting _ _ step body ctx) hl hflow
  | stepping x stop step body ctx =>
    refine (keeps_withValues h hl (all_singleton (h.float x)) body).before _ fun flow hflow => ?_
    dsimp only
    split
    · split <;> split <;> trivial
    · exact keeps_afterBody _ hl hflow
  | generic f state control count body line ctx =>
    obtain ⟨hf, hstate, hcontrol, hctx⟩ := hl
    refine ((Comp.keeps_closed h).call hf (all_cons hstate (all_singleton hcontrol)) _).before _ fun vs hvs => ?_
    dsimp only
    split
    · trivial
    · refine (keeps_withValues h hctx (all_adjust h hvs count) body).before _ fun flow hflow => ?_
      exact keeps_afterBody (.generic f state _ count body line ctx) ⟨hf, hstate, h.first hvs, hctx⟩ hflow
  | labelled whole rest ctx =>
    refine (keeps_execList h hl rest).before _ fun flow hflow => ?_
    split
    · split
      · exact hl
      · trivial
    · exact hflow

/-- The call of a function of a program keeps every lasting invariant. -/
theorem keeps_invoke (c : Closure) {args : List Value} (hargs : All I.value args) : (invoke c args).Keeps I := by
  unfold invoke
  refine (Comp.keeps_newCells h (all_adjust h hargs _)).before _ fun cells _ => ?_
  have hextra : All I.value (if c.func.vararg then args.drop c.func.params else []) := by
    split
    · exact fun v hv => hargs v (List.mem_of_mem_drop hv)
    · exact all_nil
  have hctx : All I.value (Context.mk (cells.reverse ++ c.scope) _ c.func.source) := hextra
  refine (keeps_execBlock h hctx _).before _ fun flow hflow => ?_
  cases flow with
  | ret vs => exact hflow
  | _ => exact all_nil

end Meaning

end Scratchpad.Lua
