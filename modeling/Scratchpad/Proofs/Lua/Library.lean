import Scratchpad.Lua.Library
import Scratchpad.Proofs.Lua.Keeps

/-!
# Invariants that the library keeps

A library function changes the store only as programs do, in `setmetatable` and `table.pack`, and by printing. The
values that it gives away are its arguments, values that it finds in the store, and values of its own that are no
functions that record what is printed. Main statement: whatever is called that is no function of a program keeps every
lasting invariant (`keeps_run`).
-/

namespace Scratchpad.Lua.Library

open Lua.Comp Operation HasValues

variable {I : Invariant} (h : I.Lasting) {α : Type} [HasValues α] (c : Call)

/-! ## Arguments -/

section Arguments

variable (n : Nat)

theorem keeps_callers : Comp.Keeps I callers :=
  ⟨fun _ hk sites => hk sites fun _ _ => trivial⟩

theorem keeps_positionText (level : Nat) : Comp.Keeps I (positionText level) := by
  refine keeps_callers.bind fun sites _ => ?_
  cases level <;> exact keeps_pure trivial

include h

theorem keeps_raiseHere (message : Bytes) : Comp.Keeps I (raiseHere message : Comp α) :=
  (keeps_positionText 1).bind fun _ _ => keeps_fail (h.str _)

theorem keeps_argError (message : Bytes) : Comp.Keeps I (c.argError n message : Comp α) :=
  keeps_callers.bind fun _ _ => keeps_ite (keeps_raiseHere h _) (keeps_raiseHere h _)

theorem keeps_typeError (expected : String) : Comp.Keeps I (c.typeError n expected : Comp α) := by
  unfold Call.typeError
  dsimp only
  split
  · exact (keeps_pure (α := Bytes) trivial).bind fun got _ => keeps_argError h ..
  · exact (keeps_read (α := Bytes) fun _ _ => trivial).bind fun got _ => keeps_argError h ..

theorem keeps_check (ok : Bool) (message : String) : Comp.Keeps I (c.check n ok message) :=
  keeps_ite (keeps_pure trivial) (keeps_argError h ..)

theorem keeps_table : Comp.Keeps I (c.table n) := by
  unfold Call.table
  split
  · exact keeps_pure trivial
  · exact keeps_typeError h ..

theorem keeps_number : Comp.Keeps I (c.number n) := by
  unfold Call.number
  split
  · exact keeps_pure trivial
  · exact keeps_typeError h ..

theorem keeps_float : Comp.Keeps I (c.float n) :=
  (keeps_number h c n).map fun _ _ => trivial

theorem keeps_int : Comp.Keeps I (c.int n) := by
  refine (keeps_number h c n).bind fun x _ => ?_
  split
  · exact keeps_pure trivial
  · exact keeps_argError h ..

theorem keeps_string : Comp.Keeps I (c.string n) := by
  unfold Call.string
  split
  · exact keeps_pure trivial
  · exact keeps_typeError h ..

omit h in
theorem keeps_optional {read : Call → Nat → Comp α} {default : α} (hread : Comp.Keeps I (read c n))
    (hdefault : All I.value default) : Comp.Keeps I (c.optional n read default) :=
  keeps_ite (keeps_pure hdefault) hread

variable {c} (hc : All I.value c.args)

include hc

theorem value_arg : I.value (c.arg n) := by
  rw [Call.arg, Call.arg?]
  cases harg : c.args[n - 1]? with
  | none => exact h.nil
  | some v => exact hc v (List.mem_of_getElem? harg)

theorem keeps_any : Comp.Keeps I (c.any n) := by
  unfold Call.any
  split
  · rename_i v hv
    exact keeps_pure (hc v (List.mem_of_getElem? hv))
  · exact keeps_argError h ..

theorem keeps_function : Comp.Keeps I (c.function n) :=
  keeps_ite (keeps_pure (value_arg h n hc)) (keeps_typeError h ..)

omit h in
theorem all_drop : All I.value (c.args.drop n) :=
  fun v hv => hc v (List.mem_of_mem_drop hv)

end Arguments

include h

theorem keeps_textOf {v : Value} (hv : I.value v) : Comp.Keeps I (textOf v) :=
  (keeps_closed h).toText h.toSound .native hv (keeps_raiseHere h _)

omit h in
theorem keeps_mapM {f : Value → Comp α} {vs : List Value} (hvs : All I.value vs)
    (hf : ∀ v, I.value v → Comp.Keeps I (f v)) : Comp.Keeps I (vs.mapM f) := by
  rw [← List.mapM'_eq_mapM]
  induction vs with
  | nil => exact keeps_pure all_nil
  | cons v vs ih =>
    obtain ⟨hv, hvs⟩ := List.forall_mem_cons.1 hvs
    exact (hf v hv).bind fun a ha => (ih hvs).bind fun as has => keeps_pure (all_cons ha has)

variable {c} (hc : All I.value c.args)

/-! ## Basic functions -/

section Basic

include hc

theorem keeps_tonumber : Comp.Keeps I (tonumber c) := by
  refine keeps_ite ?_ ?_
  · split
    · refine keeps_pure (all_singleton ?_)
      cases readNumber? _ with
      | none => exact h.nil
      | some x => exact h.number x
    · refine (keeps_any h 1 hc).bind fun v hv => keeps_pure (all_singleton ?_)
      split
      · exact hv
      · exact h.nil
  · refine (keeps_int h c 2).bind fun base _ => ?_
    split
    · refine (keeps_check h c 2 _ _).bind fun _ _ => keeps_pure (all_singleton ?_)
      cases readInBase? _ _ with
      | none => exact h.nil
      | some i => exact h.int i
    · exact keeps_typeError h ..

theorem keeps_select : Comp.Keeps I (select c) := by
  unfold select
  dsimp only
  split
  · exact keeps_pure (all_singleton (h.int _))
  · exact (keeps_int h c 1).bind fun i _ => (keeps_check h c 1 _ _).bind fun _ _ => keeps_pure (all_drop _ hc)

omit hc in
theorem keeps_rawlen : Comp.Keeps I (rawlen c) := by
  unfold rawlen
  split
  · exact keeps_read fun _ _ => all_singleton (h.int _)
  · exact keeps_pure (all_singleton (h.int _))
  · exact keeps_typeError h ..

theorem keeps_rawset : Comp.Keeps I (rawset c) :=
  (keeps_table h c 1).bind fun id _ => (keeps_any h 2 hc).bind fun _ hk => (keeps_any h 3 hc).bind fun _ hv =>
    ((keeps_closed h).rawSet h.toSound .native id hk hv).bind fun _ _ => keeps_pure (all_singleton (h.table id))

omit hc in
theorem keeps_next : Comp.Keeps I (next c) := by
  refine (keeps_table h c 1).bind fun id _ => (keeps_read fun s hs => h.next hs id (c.arg 2)).bind fun e he => ?_
  split
  · exact keeps_fail (h.str _)
  · exact keeps_pure (all_singleton h.nil)
  · rename_i k v
    have hkv := he _ rfl _ rfl
    exact keeps_pure (all_cons hkv.1 (all_singleton hkv.2))

theorem keeps_pairs : Comp.Keeps I (pairs c) := by
  refine (keeps_any h 1 hc).bind fun v hv => (keeps_read fun s hs => h.metamethod hs v _).bind fun handler hhandler => ?_
  refine keeps_ite (keeps_pure ?_) ?_
  · exact all_cons (h.plain nofun) (all_cons hv (all_singleton h.nil))
  · refine ((keeps_closed h).call hhandler (all_singleton hv) _).bind fun vs hvs => keeps_pure ?_
    exact all_cons (h.getD hvs 0) (all_cons (h.getD hvs 1) (all_singleton (h.getD hvs 2)))

theorem keeps_ipairsStep : Comp.Keeps I (ipairsStep c) := by
  refine (keeps_int h c 2).bind fun i _ => ?_
  refine ((keeps_closed h).index h.toSound .native (value_arg h 1 hc) (h.int _) none).bind fun v hv => keeps_pure ?_
  split
  · exact all_singleton h.nil
  · exact all_cons (h.int _) (all_singleton hv)

omit hc in
theorem keeps_setmetatable : Comp.Keeps I (setmetatable c) := by
  refine (keeps_table h c 1).bind fun id _ => ?_
  extract_lets change
  have hchange : ∀ mt, All I.value mt → Comp.Keeps I (change mt) := fun mt _ =>
    (keeps_read fun s hs => h.metamethod hs _ _).bind fun locked _ =>
      keeps_ite ((keeps_update fun _ hs => h.setMetatable hs id mt).bind fun _ _ => keeps_pure (all_singleton (h.table id)))
        (keeps_raiseHere h _)
  split
  · exact (keeps_pure all_none).bind hchange
  · exact (keeps_pure (all_some trivial)).bind hchange
  · exact (keeps_typeError h ..).bind hchange

omit hc in
theorem value_shownMetatable {s : Store} (hs : I.store s) (v : Value) : I.value (shownMetatable s v) := by
  rw [shownMetatable]
  split
  · exact h.nil
  · dsimp only
    split
    · exact h.table _
    · exact h.entry hs _ _

omit hc in
theorem keeps_raiseAt {message : Value} (hmessage : I.value message) (level : Int64) :
    Comp.Keeps I (raiseAt message level : Comp α) := by
  unfold raiseAt
  split
  · exact (keeps_positionText _).bind fun _ _ => keeps_fail (h.str _)
  · exact keeps_fail hmessage

theorem keeps_assert : Comp.Keeps I (assert c) := by
  refine keeps_ite (keeps_pure hc) ((keeps_any h 1 hc).bind fun _ _ => keeps_raiseAt h ?_ 1)
  cases hmessage : c.arg? 2 with
  | none => exact h.str _
  | some v => exact hc v (List.mem_of_getElem? hmessage)

omit hc in
theorem keeps_protectedCall {f : Value} {args : List Value} {handler : Option Value} (hf : I.value f)
    (hargs : All I.value args) (hhandler : All I.value handler) : Comp.Keeps I (protectedCall f args handler) :=
  ⟨fun _ hk => ⟨hf, hargs, hhandler, fun _ _ hvs => hk _ (all_cons (h.bool _) hvs)⟩⟩

theorem keeps_base? {p : Comp (List Value)} (hp : base? c = some p) : Comp.Keeps I p := by
  have hany := fun n => keeps_any h n hc
  unfold base? at hp
  split at hp <;> cases hp
  · exact keeps_assert h hc
  · exact (keeps_optional c 2 (keeps_int h c 2) trivial).bind fun _ _ => keeps_raiseAt h (value_arg h 1 hc) _
  · exact (hany 1).bind fun v _ => keeps_read fun s hs => all_singleton (value_shownMetatable h hs v)
  · exact (hany 1).bind fun v hv => keeps_pure (all_cons (h.plain nofun) (all_cons hv (all_singleton (h.int 0))))
  · exact keeps_ipairsStep h hc
  · exact keeps_next h
  · exact keeps_pairs h hc
  · exact (hany 1).bind fun _ hf => keeps_protectedCall h hf (all_drop 1 hc) all_none
  · exact (keeps_mapM hc fun _ hv => keeps_textOf h hv).bind fun _ _ => keeps_pure all_nil
  · exact (hany 1).bind fun _ _ => (hany 2).bind fun _ _ => keeps_pure (all_singleton (h.bool _))
  · exact (keeps_table h c 1).bind fun _ _ => (hany 2).bind fun _ _ =>
      keeps_read fun _ hs => all_singleton (h.entry hs _ _)
  · exact keeps_rawlen h
  · exact keeps_rawset h hc
  · exact keeps_select h hc
  · exact keeps_setmetatable h
  · exact keeps_tonumber h hc
  · exact (hany 1).bind fun _ hv => (keeps_textOf h hv).bind fun _ _ => keeps_pure (all_singleton (h.str _))
  · exact (hany 1).bind fun _ _ => keeps_pure (all_singleton (h.str _))
  · exact (keeps_function h 2 hc).bind fun _ hhandler =>
      keeps_protectedCall h (value_arg h 1 hc) (all_drop 2 hc) (all_some hhandler)

end Basic

/-! ## Strings and numbers -/

section Text

theorem keeps_sub : Comp.Keeps I (sub c) :=
  (keeps_string h c 1).bind fun _ _ => (keeps_int h c 2).bind fun _ _ =>
    (keeps_optional c 3 (keeps_int h c 3) trivial).bind fun _ _ => keeps_pure (all_singleton (h.str _))

theorem keeps_byteValues : Comp.Keeps I (byteValues c) := by
  refine (keeps_string h c 1).bind fun _ _ => (keeps_optional c 2 (keeps_int h c 2) trivial).bind fun _ _ =>
    (keeps_optional c 3 (keeps_int h c 3) trivial).bind fun _ _ => keeps_pure fun v hv => ?_
  obtain ⟨b, -, rfl⟩ := List.mem_map.1 hv
  exact h.int _

theorem keeps_charsFrom (n count : Nat) : Comp.Keeps I (charsFrom c n count) := by
  induction count generalizing n with
  | zero => exact keeps_pure trivial
  | succ count ih =>
    exact (keeps_int h c n).bind fun _ _ => (keeps_check h c n _ _).bind fun _ _ => (ih (n + 1)).bind fun _ _ =>
      keeps_pure trivial

theorem keeps_rep : Comp.Keeps I (rep c) := by
  have hstr : ∀ s, Comp.Keeps I (pure [.str s] : Comp (List Value)) := fun s => keeps_pure (all_singleton (h.str s))
  refine (keeps_string h c 1).bind fun s _ => (keeps_int h c 2).bind fun n _ =>
    (keeps_optional c 3 (keeps_string h c 3) trivial).bind fun sep _ => ?_
  refine keeps_ite (hstr _) (keeps_ite (keeps_raiseHere h _) (keeps_ite (keeps_fail (h.str _)) ?_))
  exact keeps_ite (hstr _) (hstr _)

include hc in
theorem keeps_stringArith (event : String) : Comp.Keeps I (stringArith event c) := by
  unfold stringArith
  dsimp only
  split
  · split
    · exact ((keeps_closed h).arith h.toSound _ _ (h.number _) (h.number _) _ _).bind fun _ hv =>
        keeps_pure (all_singleton hv)
    · exact ((keeps_closed h).negate h.toSound _ (h.number _) _).bind fun _ hv => keeps_pure (all_singleton hv)
  · refine (keeps_read fun s hs => h.metamethod hs _ _).bind fun handler hhandler =>
      keeps_ite (keeps_raiseHere h _) ?_
    have hargs : All I.value [c.arg 1, c.arg 2] := all_cons (value_arg h 1 hc) (all_singleton (value_arg h 2 hc))
    exact ((keeps_closed h).call hhandler hargs _).bind fun _ hvs => keeps_pure (all_singleton (h.first hvs))

include hc in
theorem keeps_text? {p : Comp (List Value)} (hp : text? c = some p) : Comp.Keeps I p := by
  have hstring : ∀ f : Bytes → Value, (∀ s, I.value (f s)) → Comp.Keeps I (do return [f (← c.string 1)]) :=
    fun f hf => (keeps_string h c 1).bind fun s _ => keeps_pure (all_singleton (hf s))
  unfold text? at hp
  split at hp <;> cases hp
  · exact keeps_byteValues h
  · exact (keeps_charsFrom h 1 _).bind fun _ _ => keeps_pure (all_singleton (h.str _))
  · exact hstring _ fun _ => h.int _
  · exact hstring _ fun _ => h.str _
  · exact hstring _ fun _ => h.str _
  · exact hstring _ fun _ => h.str _
  · exact keeps_rep h
  · exact keeps_sub h
  · exact keeps_stringArith h hc _

theorem value_integerOr (x : Binary64) : I.value (integerOr x) := by
  rw [integerOr]
  split
  · exact h.int _
  · exact h.float x

theorem keeps_rounded (f : Binary64 → Binary64) : Comp.Keeps I (rounded f c) := by
  unfold rounded
  split
  · exact keeps_pure (all_singleton (h.int _))
  · exact (keeps_float h c 1).bind fun _ _ => keeps_pure (all_singleton (value_integerOr h _))

omit h in
theorem keeps_best {better : Value → Value → Comp Bool}
    (hbetter : ∀ {v w}, I.value v → I.value w → Comp.Keeps I (better v w)) {v : Value} {ws : List Value}
    (hv : I.value v) (hws : All I.value ws) : Comp.Keeps I (best better v ws) := by
  induction ws generalizing v with
  | nil => exact keeps_pure hv
  | cons w ws ih =>
    obtain ⟨hw, hws⟩ := List.forall_mem_cons.1 hws
    exact (hbetter hw hv).bind fun _ _ => keeps_ite (ih hw hws) (ih hv hws)

include hc in
theorem keeps_bestOf {better : Value → Value → Comp Bool}
    (hbetter : ∀ {v w}, I.value v → I.value w → Comp.Keeps I (better v w)) : Comp.Keeps I (bestOf better c) :=
  (keeps_any h 1 hc).bind fun _ hv => (keeps_best hbetter hv (all_drop 1 hc)).bind fun _ hw =>
    keeps_pure (all_singleton hw)

theorem keeps_abs : Comp.Keeps I (abs c) := by
  unfold abs
  split
  · exact keeps_pure (all_singleton (h.int _))
  · exact (keeps_float h c 1).bind fun _ _ => keeps_pure (all_singleton (h.float _))

include hc in
theorem keeps_tointeger : Comp.Keeps I (tointeger c) := by
  unfold tointeger
  split
  · exact keeps_pure (all_singleton (h.int _))
  · exact (keeps_any h 1 hc).bind fun _ _ => keeps_pure (all_singleton h.nil)

include hc in
theorem keeps_mathType : Comp.Keeps I (mathType c) := by
  refine (keeps_any h 1 hc).bind fun v _ => ?_
  split
  · exact keeps_pure (all_singleton (h.str _))
  · exact keeps_pure (all_singleton (h.str _))
  · exact keeps_pure (all_singleton h.nil)

include hc in
theorem keeps_math? {p : Comp (List Value)} (hp : math? c = some p) : Comp.Keeps I p := by
  unfold math? at hp
  split at hp <;> cases hp
  · exact keeps_abs h
  · exact keeps_rounded h _
  · exact keeps_rounded h _
  · exact keeps_bestOf h hc fun hv hw => (keeps_closed h).lessThan h.toSound _ hw hv
  · exact keeps_bestOf h hc fun hv hw => (keeps_closed h).lessThan h.toSound _ hv hw
  · exact (keeps_float h c 1).bind fun _ _ => keeps_pure (all_singleton (h.float _))
  · exact keeps_tointeger h hc
  · exact keeps_mathType h hc

end Text

/-! ## Formatted text -/

theorem keeps_quoted (n : Nat) : Comp.Keeps I (quoted c n) := by
  unfold quoted
  cases c.arg n with
  | str s => exact keeps_pure trivial
  | float x => exact keeps_pure trivial
  | int i => exact keeps_pure trivial
  | nil => exact keeps_pure trivial
  | bool b => exact keeps_pure trivial
  | _ => exact keeps_argError h ..

include hc in
theorem keeps_formatArg (d : Directive) (n : Nat) : Comp.Keeps I (formatArg c d n) := by
  have hrequire : ∀ flags withPrecision,
      Comp.Keeps I (if d.isValid flags withPrecision then pure () else invalidDirective d : Comp Unit) :=
    fun _ _ => keeps_ite (keeps_pure trivial) (keeps_raiseHere h _)
  unfold formatArg
  dsimp only
  split
  · exact (hrequire _ _).bind fun _ _ => (keeps_int h c n).bind fun _ _ => keeps_pure trivial
  -- the letters of integers and of floating point numbers
  any_goals exact (keeps_int h c n).bind fun _ _ => (hrequire _ _).bind fun _ _ => keeps_pure trivial
  any_goals exact (keeps_float h c n).bind fun _ _ => (hrequire _ _).bind fun _ _ => keeps_pure trivial
  any_goals exact (hrequire _ _).bind fun _ _ => (keeps_float h c n).bind fun _ _ => keeps_pure trivial
  · exact (hrequire _ _).bind fun _ _ => keeps_pure trivial
  · exact keeps_ite (keeps_quoted h n) (keeps_raiseHere h _)
  · refine (keeps_any h n hc).bind fun v hv => (keeps_textOf h hv).bind fun s _ => keeps_ite (keeps_pure trivial) ?_
    exact (keeps_check h c n _ _).bind fun _ _ => (hrequire _ _).bind fun _ _ =>
      keeps_ite (keeps_pure trivial) (keeps_pure trivial)
  · exact keeps_raiseHere h _

include hc in
theorem keeps_formatFrom (fuel n : Nat) (bs : Bytes) : Comp.Keeps I (formatFrom c fuel n bs) := by
  induction fuel generalizing n bs with
  | zero => exact keeps_pure trivial
  | succ fuel ih =>
    cases bs with
    | nil => exact keeps_pure trivial
    | cons b bs =>
      unfold formatFrom
      refine keeps_ite ((ih _ _).bind fun _ _ => keeps_pure trivial) ?_
      split
      · exact (ih _ _).bind fun _ _ => keeps_pure trivial
      · extract_lets modifiers directive bounded
        have hdirective : Comp.Keeps I (directive ()) := by
          dsimp only [directive]
          split
          · exact keeps_raiseHere h _
          · exact (keeps_formatArg h hc _ n).bind fun _ _ => (ih _ _).bind fun _ _ => keeps_pure trivial
        have hbounded : Comp.Keeps I (bounded ()) :=
          keeps_ite ((keeps_raiseHere h (α := Unit) _).bind fun _ _ => hdirective) hdirective
        exact keeps_ite ((keeps_argError h (α := Unit) ..).bind fun _ _ => hbounded) hbounded

include hc in
theorem keeps_format? {p : Comp (List Value)} (hp : format? c = some p) : Comp.Keeps I p := by
  unfold format? at hp
  split at hp <;> cases hp
  exact (keeps_string h c 1).bind fun _ _ => (keeps_formatFrom h hc _ _ _).bind fun _ _ =>
    keeps_pure (all_singleton (h.str _))

/-! ## Sequences -/

include hc in
theorem keeps_sequence (events : List String) : Comp.Keeps I (sequence c events) := by
  have hv := value_arg h 1 hc
  unfold sequence
  dsimp only
  split
  · exact keeps_pure hv
  · exact (keeps_read (α := Bool) fun _ _ => trivial).bind fun _ _ => keeps_ite (keeps_pure hv) (keeps_typeError h ..)

section Items

variable {v : Value} (hv : I.value v)

include hv

theorem keeps_lengthOf : Comp.Keeps I (lengthOf v) := by
  refine ((keeps_closed h).length h.toSound _ hv _).bind fun n _ => ?_
  split
  · exact keeps_pure trivial
  · exact keeps_raiseHere h _

theorem keeps_getItem (i : Int64) : Comp.Keeps I (getItem v i) :=
  (keeps_closed h).index h.toSound _ hv (h.int i) _

theorem keeps_setItem (i : Int64) {x : Value} (hx : I.value x) : Comp.Keeps I (setItem v i x) :=
  (keeps_closed h).setIndex h.toSound _ hv (h.int i) hx _

theorem keeps_moveUp (i : Int64) (count : Nat) : Comp.Keeps I (moveUp v i count) := by
  induction count generalizing i with
  | zero => exact keeps_pure trivial
  | succ count ih => exact (keeps_getItem h hv _).bind fun _ hx => (keeps_setItem h hv i hx).bind fun _ _ => ih _

theorem keeps_moveDown (i : Int64) (count : Nat) : Comp.Keeps I (moveDown v i count) := by
  induction count generalizing i with
  | zero => exact keeps_pure trivial
  | succ count ih => exact (keeps_getItem h hv _).bind fun _ hx => (keeps_setItem h hv i hx).bind fun _ _ => ih _

theorem keeps_joined (sep : Bytes) (i : Int64) (count : Nat) : Comp.Keeps I (joined v sep i count) := by
  induction count generalizing i with
  | zero => exact keeps_pure trivial
  | succ count ih =>
    refine (keeps_getItem h hv i).bind fun x _ => ?_
    split
    · exact keeps_raiseHere h _
    · exact keeps_ite (keeps_pure trivial) ((ih _).bind fun _ _ => keeps_pure trivial)

theorem keeps_items (i : Int64) (count : Nat) : Comp.Keeps I (items v i count) := by
  induction count generalizing i with
  | zero => exact keeps_pure all_nil
  | succ count ih =>
    exact (keeps_getItem h hv i).bind fun _ hx => (ih _).bind fun _ hxs => keeps_pure (all_cons hx hxs)

end Items

section Functions

include hc

theorem keeps_insert : Comp.Keeps I (insert c) := by
  refine (keeps_sequence h hc _).bind fun v hv => (keeps_lengthOf h hv).bind fun n _ => ?_
  dsimp only
  split
  · exact (keeps_setItem h hv _ (value_arg h 2 hc)).bind fun _ _ => keeps_pure all_nil
  · exact (keeps_int h c 2).bind fun _ _ => (keeps_check h c 2 _ _).bind fun _ _ => (keeps_moveUp h hv _ _).bind fun _ _ =>
      (keeps_setItem h hv _ (value_arg h 3 hc)).bind fun _ _ => keeps_pure all_nil
  · exact keeps_raiseHere h _

theorem keeps_remove : Comp.Keeps I (remove c) :=
  (keeps_sequence h hc _).bind fun _ hv => (keeps_lengthOf h hv).bind fun _ _ =>
    (keeps_optional c 2 (keeps_int h c 2) trivial).bind fun _ _ => (keeps_check h c 2 _ _).bind fun _ _ =>
      (keeps_getItem h hv _).bind fun _ hx => (keeps_moveDown h hv _ _).bind fun _ _ =>
        (keeps_setItem h hv _ h.nil).bind fun _ _ => keeps_pure (all_singleton hx)

theorem keeps_concatItems : Comp.Keeps I (concatItems c) :=
  (keeps_sequence h hc _).bind fun _ hv => (keeps_lengthOf h hv).bind fun _ _ =>
    (keeps_optional c 2 (keeps_string h c 2) trivial).bind fun _ _ =>
      (keeps_optional c 3 (keeps_int h c 3) trivial).bind fun _ _ =>
        (keeps_optional c 4 (keeps_int h c 4) trivial).bind fun _ _ =>
          (keeps_joined h hv _ _ _).bind fun _ _ => keeps_pure (all_singleton (h.str _))

theorem keeps_unpack : Comp.Keeps I (unpack c) := by
  have hv := value_arg h 1 hc
  refine (keeps_optional c 2 (keeps_int h c 2) trivial).bind fun i _ => ?_
  extract_lets rest
  have hrest : ∀ last, All I.value last → Comp.Keeps I (rest last) :=
    fun last _ => keeps_ite (keeps_raiseHere h _) (keeps_items h hv ..)
  exact keeps_ite ((keeps_lengthOf h hv).bind hrest) ((keeps_int h c 3).bind hrest)

theorem keeps_pack : Comp.Keeps I (pack c) := by
  refine Keeps.bind (c := newTable _) ⟨fun _ hk _ _ => ⟨fun _ hs => h.pack hs hc, hk _ (h.table _)⟩⟩ fun t ht => ?_
  exact keeps_pure (all_singleton ht)

end Functions

section Quicksort

variable {v : Value} (hv : I.value v) {below : Value → Value → Comp Bool}
  (hbelow : ∀ {a b}, I.value a → I.value b → Comp.Keeps I (below a b))

include hv

theorem keeps_setTwo (i j : Nat) {a b : Value} (ha : I.value a) (hb : I.value b) : Comp.Keeps I (setTwo v i j a b) :=
  (keeps_setItem h hv _ ha).bind fun _ _ => keeps_setItem h hv _ hb

include hbelow

theorem keeps_scanUp {pivot : Value} (hpivot : I.value pivot) (up i fuel : Nat) :
    Comp.Keeps I (scanUp v below pivot up i fuel) := by
  induction fuel generalizing i with
  | zero => exact keeps_raiseHere h _
  | succ fuel ih =>
    exact (keeps_getItem h hv _).bind fun x hx => (hbelow hx hpivot).bind fun b _ =>
      keeps_ite (keeps_ite (keeps_raiseHere h _) (ih _)) (keeps_pure ⟨trivial, hx⟩)

theorem keeps_scanDown {pivot : Value} (hpivot : I.value pivot) (i j fuel : Nat) :
    Comp.Keeps I (scanDown v below pivot i j fuel) := by
  induction fuel generalizing j with
  | zero => exact keeps_raiseHere h _
  | succ fuel ih =>
    exact (keeps_getItem h hv _).bind fun x hx => (hbelow hpivot hx).bind fun b _ =>
      keeps_ite (keeps_ite (keeps_raiseHere h _) (ih _)) (keeps_pure ⟨trivial, hx⟩)

theorem keeps_partition {pivot : Value} (hpivot : I.value pivot) (up i j fuel : Nat) :
    Comp.Keeps I (partition v below pivot up i j fuel) := by
  induction fuel generalizing i j with
  | zero => exact keeps_pure trivial
  | succ fuel ih =>
    refine (keeps_scanUp h hv hbelow hpivot ..).bind fun ⟨i, x⟩ ⟨_, hx⟩ => ?_
    refine (keeps_scanDown h hv hbelow hpivot ..).bind fun ⟨j, y⟩ ⟨_, hy⟩ => ?_
    exact keeps_ite ((keeps_setTwo h hv _ _ hx hpivot).bind fun _ _ => keeps_pure trivial)
      ((keeps_setTwo h hv _ _ hy hx).bind fun _ _ => ih _ _)

theorem keeps_exchange (i j : Nat) : Comp.Keeps I (exchange v below i j) :=
  (keeps_getItem h hv _).bind fun _ ha => (keeps_getItem h hv _).bind fun _ hb => (hbelow hb ha).bind fun _ _ =>
    keeps_ite (keeps_setTwo h hv _ _ hb ha) (keeps_pure trivial)

theorem keeps_sortRange (fuel lo up : Nat) : Comp.Keeps I (sortRange v below fuel lo up) := by
  induction fuel generalizing lo up with
  | zero => exact keeps_pure trivial
  | succ fuel ih =>
    unfold sortRange
    refine keeps_ite (keeps_pure trivial) ((keeps_exchange h hv hbelow lo up).bind fun _ _ =>
      keeps_ite (keeps_pure trivial) ?_)
    extract_lets p halves
    refine (keeps_getItem h hv _).bind fun a ha => (keeps_getItem h hv _).bind fun b hb =>
      (hbelow ha hb).bind fun isBelow _ => ?_
    have hhalves : Comp.Keeps I (halves ()) := by
      refine keeps_ite (keeps_pure trivial) ?_
      refine (keeps_getItem h hv _).bind fun pivot hpivot => (keeps_getItem h hv _).bind fun x hx =>
        (keeps_setTwo h hv _ _ hx hpivot).bind fun _ _ => (keeps_partition h hv hbelow hpivot ..).bind fun p _ => ?_
      exact keeps_ite ((ih _ _).bind fun _ _ => ih _ _) ((ih _ _).bind fun _ _ => ih _ _)
    refine keeps_ite ((keeps_setTwo h hv _ _ hb ha).bind fun _ _ => hhalves) ?_
    refine (keeps_getItem h hv _).bind fun b hb => (hbelow hb ha).bind fun isBelow _ => ?_
    exact keeps_ite ((keeps_setTwo h hv _ _ hb ha).bind fun _ _ => hhalves) hhalves

end Quicksort

include hc in
theorem keeps_sort : Comp.Keeps I (sort c) := by
  refine (keeps_sequence h hc _).bind fun v hv => (keeps_lengthOf h hv).bind fun n _ =>
    keeps_ite (keeps_pure all_nil) ?_
  refine (keeps_check h c 1 _ _).bind fun _ _ => ?_
  extract_lets rest
  have hrest : ∀ below : Value → Value → Comp Bool,
      (∀ {a b}, I.value a → I.value b → Comp.Keeps I (below a b)) → Comp.Keeps I (rest below) :=
    fun below hbelow => (keeps_sortRange h hv hbelow ..).bind fun _ _ => keeps_pure all_nil
  refine keeps_ite (hrest _ fun ha hb => (keeps_closed h).lessThan h.toSound _ ha hb) ?_
  refine (keeps_function h 2 hc).bind fun f hf => hrest _ fun ha hb => ?_
  exact ((keeps_closed h).call hf (all_cons ha (all_singleton hb)) _).bind fun _ _ => keeps_pure trivial

include hc in
theorem keeps_sequence? {p : Comp (List Value)} (hp : sequence? c = some p) : Comp.Keeps I p := by
  unfold sequence? at hp
  split at hp <;> cases hp
  · exact keeps_concatItems h hc
  · exact keeps_insert h hc
  · exact keeps_pack h hc
  · exact keeps_remove h hc
  · exact keeps_sort h hc
  · exact keeps_unpack h hc

/-! ## Coroutines -/

section Coroutines

theorem keeps_thread (n : Nat) : Comp.Keeps I (thread c n) := by
  unfold thread
  split
  · exact keeps_pure trivial
  · exact keeps_typeError h ..

omit h in
theorem keeps_spawn {f : Value} (hf : I.value f) : Comp.Keeps I (spawn f) :=
  ⟨fun _ hk => ⟨hf, fun id => hk id trivial⟩⟩

omit h in
theorem keeps_resume (id : Nat) {args : List Value} (hargs : All I.value args) (closes : Bool) :
    Comp.Keeps I (resume id args closes) :=
  ⟨fun _ hk => ⟨hargs, fun ok vs hvs => hk (ok, vs) ⟨trivial, hvs⟩⟩⟩

theorem keeps_resumeWrapped (id : Nat) {args : List Value} (hargs : All I.value args) :
    Comp.Keeps I (resumeWrapped id args) := by
  refine (keeps_resume id hargs true).bind fun ⟨ok, vs⟩ ⟨_, hvs⟩ => ?_
  cases ok with
  | true => exact keeps_pure hvs
  | false =>
    dsimp only
    split
    · exact keeps_raiseHere h _
    · exact keeps_fail (h.first hvs)

include hc in
theorem keeps_coroutine? {p : Comp (List Value)} (hp : coroutine? c = some p) : Comp.Keeps I p := by
  have hspawn : ∀ f : Nat → Value, (∀ id, I.value (f id)) →
      Comp.Keeps I (do return [f (← spawn (← c.function 1))]) := fun f hf =>
    (keeps_function h 1 hc).bind fun _ hv => (keeps_spawn hv).bind fun id _ => keeps_pure (all_singleton (hf id))
  have hyieldable : ∀ id, Comp.Keeps I (fun k => .yieldable id fun b => k [.bool b] : Comp (List Value)) :=
    fun _ => ⟨fun _ hk _ => hk _ (all_singleton (h.bool _))⟩
  unfold coroutine? at hp
  split at hp <;> cases hp
  · exact hspawn _ fun _ => h.plain nofun
  · dsimp only
    split
    · exact Keeps.bind (α := Nat) ⟨fun _ hk id => hk id trivial⟩ fun id _ => hyieldable id
    · exact (keeps_thread h 1).bind fun id _ => hyieldable id
  · exact (keeps_thread h 1).bind fun _ _ => (keeps_resume _ (all_drop 1 hc) _).bind fun ⟨ok, vs⟩ hvs =>
      keeps_pure (all_cons (h.bool ok) hvs.2)
  · exact ⟨fun _ hk _ => hk _ (all_cons (h.plain nofun) (all_singleton (h.bool _)))⟩
  · exact (keeps_thread h 1).bind fun _ _ => ⟨fun _ hk _ => hk _ (all_singleton (h.str _))⟩
  · exact hspawn _ fun _ => h.plain nofun
  · exact ⟨fun _ hk => ⟨hc, hk⟩⟩

end Coroutines

/-! ## Functions of environments -/

section Environments

variable {args : List Value} (hargs : All I.value args)

omit hc in
theorem keeps_readThrough (args : List Value) : Comp.Keeps I (readThrough args) :=
  keeps_read fun _ hs => all_singleton (h.entry hs _ _)

include hargs

theorem keeps_writeLocal : Comp.Keeps I (writeLocal args) := by
  unfold writeLocal
  split
  · exact ((keeps_closed h).rawSet h.toSound _ _ (h.getD hargs 1) (h.getD hargs 2)).bind fun _ _ => keeps_pure all_nil
  · exact (keeps_read (α := Bytes) fun _ _ => trivial).bind fun _ _ => keeps_fail (h.str _)

theorem keeps_capture (run : Nat) : Comp.Keeps I (capture run args) := by
  refine (keeps_mapM hargs fun v hv => ?_).bind fun texts _ => ?_
  · exact (keeps_closed h).toText h.toSound .native hv (keeps_fail (h.str _))
  refine (keeps_update fun s hs => ?_).bind fun _ _ => keeps_pure all_nil
  split
  · exact h.print hs _
  · exact hs

end Environments

/-! ## All functions -/

include hc

theorem keeps_other : Comp.Keeps I (other c) := by
  unfold other
  split
  · refine (keeps_any h 1 hc).bind fun v _ => keeps_pure (all_singleton ?_)
    unfold ioType
    split
    · exact h.nil
    · exact h.str _
    · exact h.nil
  · exact keeps_pure (all_singleton (h.str _))
  · exact keeps_raiseHere h _

theorem keeps_runFunction : Comp.Keeps I (runFunction c) := by
  unfold runFunction
  cases hpart : [base?, text?, format?, sequence?, math?, coroutine?].findSome? (fun part => part c) with
  | none => exact keeps_other h hc
  | some p =>
    obtain ⟨part, hmem, hp⟩ := List.exists_of_findSome?_eq_some hpart
    simp only [List.mem_cons, List.not_mem_nil, or_false] at hmem
    rcases hmem with rfl | rfl | rfl | rfl | rfl | rfl
    · exact keeps_base? h hc hp
    · exact keeps_text? h hc hp
    · exact keeps_format? h hc hp
    · exact keeps_sequence? h hc hp
    · exact keeps_math? h hc hp
    · exact keeps_coroutine? h hc hp

omit hc in
/-- Whatever is called that is no function of a program keeps every lasting invariant. -/
theorem keeps_run (b : Builtin) {args : List Value} (hargs : All I.value args) : Comp.Keeps I (run b args) := by
  cases b with
  | lib f => exact keeps_runFunction h (c := ⟨f, args⟩) hargs
  | wrapped id => exact keeps_resumeWrapped h id hargs
  | readThrough n => exact keeps_readThrough h args
  | writeLocal n => exact keeps_writeLocal h hargs
  | capture run => exact keeps_capture h hargs run

end Scratchpad.Lua.Library
