import Scratchpad.Proofs.Inspect
import Scratchpad.Proofs.Inspect.Reader
import Scratchpad.Proofs.Inspect.Split

/-!
# Different values are shown differently

A value is plain if it is built from truth values, integers, readable texts and tables of such values with distinct keys
(`Plain`). The text of a plain value reads as tokens that do not depend on its layout (`yields_reads`), and these are
different for values that are not alike (`alike_of_tokens`). Main statement: plain values with the same text are alike
(`alike_of_inspect_eq`).
-/

namespace Scratchpad.Inspect

open Lua

/-! ## Plain values -/

/-- A truth value, an integer or a readable text. -/
inductive Atom : Value → Prop
  | bool (b : Bool) : Atom (.bool b)
  | int (i : Int) : Atom (.int i)
  | text {s : String} (h : ∀ c ∈ s.toList, Readable c) : Atom (.text s)

/-- A finite value in which at most `n` tables are nested. The keys of a table are distinct atoms, and it has no
metatable. -/
inductive Plain (store : Store) : Nat → Value → Prop
  | atom {n : Nat} {v : Value} (h : Atom v) : Plain store n v
  | table {n : Nat} {r : Ref} (kind : r.kind = .table) (metatable : (store r.id).metatable = none)
      (distinct : ((store r.id).entries.map Prod.fst).Nodup) (keys : ∀ e ∈ (store r.id).entries, Atom e.1)
      (values : ∀ e ∈ (store r.id).entries, Plain store n e.2) : Plain store (n + 1) (.ref r)

/-- Equal scalars, or tables with the same keys whose values are alike. -/
inductive Alike (store store' : Store) : Value → Value → Prop
  | scalar {v : Value} (h : v.isScalar = true) : Alike store store' v v
  | table {r r' : Ref} (kind : r.kind = .table) (kind' : r'.kind = .table)
      (keys : ∀ k, k ∈ (store r.id).entries.map Prod.fst ↔ k ∈ (store' r'.id).entries.map Prod.fst)
      (values : ∀ k v v', (k, v) ∈ (store r.id).entries → (k, v') ∈ (store' r'.id).entries → Alike store store' v v') :
      Alike store store' (.ref r) (.ref r')

section Plain

variable {store store' : Store} {n : Nat} {v v' : Value} {r : Ref}

theorem Atom.isScalar (h : Atom v) : v.isScalar = true := by
  cases h <;> rfl

/-- The values in a plain table are plain, and fewer tables are nested in them. -/
theorem Plain.value (h : Plain store n (.ref r)) {e : Value × Value} (he : e ∈ (store r.id).entries) :
    ∃ m, m + 1 = n ∧ Plain store m e.2 := by
  cases h with
  | atom h => cases h
  | table _ _ _ _ values => exact ⟨_, rfl, values e he⟩

/-- The value stands inside the open tables `path`: it is less deep than each of them. -/
def Inside (store : Store) (path : List Nat) (v : Value) : Prop :=
  ∀ p ∈ path, ∀ n, Plain store n (.ref ⟨.table, p⟩) → ∃ m < n, Plain store m v

/-- A plain table is not among the tables that are open around it. -/
theorem Inside.not_mem {path : List Nat} (hr : r.kind = .table) (hin : Inside store path (.ref r))
    (h : Plain store n (.ref r)) : r.id ∉ path := by
  obtain ⟨kind, id⟩ := r
  obtain rfl : kind = .table := hr
  intro hp
  induction n using Nat.strongRecOn with
  | _ n ih =>
    obtain ⟨m, hm, hplain⟩ := hin id hp n h
    exact ih m hm hplain

/-- The values of a table stand inside it. -/
theorem Inside.value {path : List Nat} (hr : r.kind = .table) (hin : Inside store path (.ref r)) {e : Value × Value}
    (he : e ∈ (store r.id).entries) : Inside store (r.id :: path) e.2 := by
  obtain ⟨kind, id⟩ := r
  obtain rfl : kind = .table := hr
  intro p hp n hplain
  rcases List.mem_cons.1 hp with rfl | hp
  · obtain ⟨m, rfl, hm⟩ := hplain.value he
    exact ⟨m, Nat.lt_succ_self m, hm⟩
  · obtain ⟨m, hlt, hm⟩ := hin p hp n hplain
    obtain ⟨l, rfl, hl⟩ := hm.value he
    exact ⟨l, by omega, hl⟩

end Plain

/-! ## The items of a table -/

/-- An item of a table: a value with its key, or a value of the sequence. -/
abbrev Item := Option Value × Value

/-- The items of a table: first the values of the sequence, then the other entries. -/
def itemsOf (entries : List (Value × Value)) : List Item :=
  (splitEntries entries).1.map (fun v => (none, v)) ++ (splitEntries entries).2.map fun e => (some e.1, e.2)

/-- The key of an item by its place. -/
def itemKey (i : Nat) (key? : Option Value) : Value :=
  key?.getD (.int (i + 1))

/-- The entries of a table are its items with their keys. -/
theorem mem_entries_iff_items {entries : List (Value × Value)} (h : (entries.map Prod.fst).Nodup) {k v : Value} :
    (k, v) ∈ entries ↔ ∃ (i : Nat) (key? : Option Value), (itemsOf entries)[i]? = some (key?, v) ∧ itemKey i key? = k := by
  rw [mem_entries_iff h]
  constructor
  · rintro (⟨i, hi, rfl⟩ | hkeyed)
    · have hlt : i < ((splitEntries entries).1.map fun v => ((none, v) : Item)).length := by
        rw [List.length_map]
        exact (List.getElem?_eq_some_iff.1 hi).1
      exact ⟨i, none, by rw [itemsOf, List.getElem?_append_left hlt, List.getElem?_map, hi]; rfl, rfl⟩
    · obtain ⟨i, hi⟩ := List.getElem?_of_mem hkeyed
      refine ⟨((splitEntries entries).1.map fun v => ((none, v) : Item)).length + i, some k, ?_, rfl⟩
      rw [itemsOf, List.getElem?_append_right (Nat.le_add_right _ _), Nat.add_sub_cancel_left, List.getElem?_map, hi]
      rfl
  · rintro ⟨i, key?, hi, rfl⟩
    rw [itemsOf, List.getElem?_append] at hi
    split at hi
    · obtain ⟨w, hw, he⟩ := Option.map_eq_some_iff.1 ((List.getElem?_map).symm.trans hi)
      obtain ⟨rfl, rfl⟩ := Prod.mk.inj he
      exact .inl ⟨i, hw, rfl⟩
    · obtain ⟨e, he, heq⟩ := Option.map_eq_some_iff.1 ((List.getElem?_map).symm.trans hi)
      obtain ⟨rfl, rfl⟩ := Prod.mk.inj heq
      exact .inr (List.mem_of_getElem? he)

/-! ## Tokens of values -/

/-- The tokens of an item whose value has the tokens `ts`. -/
def keyTokens (key? : Option Value) (ts : List Token) : List Token :=
  match key? with
  | none => ts
  | some k => .scalar k :: .equals :: ts

/-- The tokens of a value with at most `n` nested tables. -/
def valueTokens (store : Store) : Nat → Value → List Token
  | 0, v => [.scalar v]
  | n + 1, .ref r => .opening ::
      ((itemsOf (store r.id).entries).map fun e => keyTokens e.1 (valueTokens store n e.2)).flatten ++ [.closing]
  | _ + 1, v => [.scalar v]

theorem Atom.valueTokens {store : Store} {v : Value} (h : Atom v) (n : Nat) : valueTokens store n v = [.scalar v] := by
  cases n <;> cases h <;> rfl

/-! ## The printer -/

/-- Every result of a step has the property. -/
def Yields {α : Type} (P : α → Prop) (m : Step α) : Prop :=
  ∀ seen, P (m.run seen).1

section Steps

variable {α β : Type} {P : α → Prop} {Q : β → Prop}

theorem Yields.pure {a : α} (h : P a) : Yields P (Pure.pure a : Step α) :=
  fun _ => h

theorem Yields.bind {m : Step α} {f : α → Step β} (hm : Yields P m) (hf : ∀ a, P a → Yields Q (f a)) :
    Yields Q (m >>= f) :=
  fun seen => hf _ (hm seen) _

theorem Yields.then {m : Step α} {f : α → Step β} (hf : ∀ a, Yields Q (f a)) : Yields Q (m >>= f) :=
  fun _ => hf _ _

theorem Yields.map {m : Step α} {f : α → β} (hm : Yields P m) (hf : ∀ a, P a → Q (f a)) : Yields Q (f <$> m) :=
  fun seen => hf _ (hm seen)

end Steps

section Printer

variable {layout : Layout} {store : Store}

/-- Every result reads as some tokens. -/
abbrev YieldsTokens (ts : List Token) (m : Step (List Char)) : Prop :=
  Yields (Reads · ts) m

theorem yields_mapM {α : Type} {l : List α} {f : α → Step (List Char)} {g : α → List Token}
    (h : ∀ a ∈ l, YieldsTokens (g a) (f a)) : Yields (List.Forall₂ Reads · (l.map g)) (l.mapM f) := by
  induction l with
  | nil => exact .pure .nil
  | cons a l ih =>
    rw [List.mapM_cons]
    exact .bind (h a List.mem_cons_self) fun t ht =>
      .bind (ih fun b hb => h b (List.mem_cons_of_mem a hb)) fun ts hts => .pure (.cons ht hts)

/-- An atom reads as itself. -/
theorem reads_scalarText {v : Value} (h : Atom v) : Reads (scalarText v) [.scalar v] := by
  cases h with
  | bool b => cases b <;> exact reads_word (by decide) (List.all_eq_true.1 (by decide))
  | int i => exact reads_intText i
  | @text s h =>
    have hread := reads_quoteText h
    rwa [String.ofList_toList] at hread

theorem yields_reads_atom {v : Value} (h : Atom v) (room : Nat) (path : List Nat) :
    YieldsTokens [.scalar v] (inspectAt layout store room path v) := by
  have hshown : inspectAt layout store room path v = pure (scalarText v) := by
    cases h <;> cases room <;> rfl
  rw [hshown]
  exact .pure (reads_scalarText h)

/-- A key without brackets reads as itself. -/
theorem reads_bareKey? {k : Value} {cs : List Char} (hk : Atom k) (h : bareKey? k = some cs) :
    Reads cs [.scalar k] := by
  cases hk with
  | text _ =>
    unfold bareKey? at h
    dsimp only at h
    split at h
    · rename_i hname
      obtain rfl := Option.some.inj h
      exact reads_name hname
    · cases h
  | _ => cases h

/-- The text of an entry reads as its key, an equals sign and its value. -/
theorem yields_reads_entryItem {value : Value → Step (List Char)} {e : Value × Value} {ts : List Token} (hk : Atom e.1)
    (hkey : YieldsTokens [.scalar e.1] (value e.1)) (hvalue : YieldsTokens ts (value e.2)) :
    YieldsTokens (keyTokens (some e.1) ts) (entryItem value e) := by
  have hgap : IsGap ' ' := isGap_of_mem_gaps (by decide)
  have hrest : ∀ key, Reads key [.scalar e.1] →
      YieldsTokens (keyTokens (some e.1) ts) (do return key ++ " = ".toList ++ (← value e.2)) := fun key hkey =>
    .bind hvalue fun t ht => .pure (by
      rw [List.append_assoc]
      exact hkey.append (.gap hgap (.sign rfl (.gap hgap ht))) (hgap.ends _))
  unfold entryItem
  split
  · rename_i t ht
    exact hrest t (reads_bareKey? hk ht)
  · refine .bind (P := (Reads · [.scalar e.1])) (.map hkey fun t ht => ?_) hrest
    have hclose : IsGap ']' := isGap_of_mem_gaps (by decide)
    exact .append (.gap (isGap_of_mem_gaps (by decide)) ht) (.gap hclose .nil) (hclose.ends _)

/-- The items of a table read as their keys and values. -/
theorem yields_reads_tableItems {value : Value → Step (List Char)} {entries : List (Value × Value)}
    {ts : Value → List Token} (hkeys : ∀ e ∈ entries, Atom e.1)
    (hkey : ∀ k, Atom k → YieldsTokens [.scalar k] (value k))
    (hvalue : ∀ e ∈ entries, YieldsTokens (ts e.2) (value e.2)) (hdistinct : (entries.map Prod.fst).Nodup) :
    Yields (List.Forall₂ Reads · ((itemsOf entries).map fun e => keyTokens e.1 (ts e.2)))
      (tableItems value (splitEntries entries).1 (splitEntries entries).2 none) := by
  have hfirst : ∀ v ∈ (splitEntries entries).1, YieldsTokens (ts v) (value v) := by
    intro v hv
    obtain ⟨i, hi⟩ := List.getElem?_of_mem hv
    exact hvalue _ ((mem_entries_iff hdistinct).2 (.inl ⟨i, hi, rfl⟩))
  have hsecond : ∀ e ∈ (splitEntries entries).2,
      YieldsTokens (keyTokens (some e.1) (ts e.2)) (entryItem value e) := by
    intro e he
    have hmem : e ∈ entries := (mem_keyed_iff.1 he).1
    exact yields_reads_entryItem (hkeys e hmem) (hkey e.1 (hkeys e hmem)) (hvalue e hmem)
  refine .bind (yields_mapM hfirst) fun first h₁ => .bind (yields_mapM hsecond) fun second h₂ => .pure ?_
  rw [List.append_nil, itemsOf, List.map_append, List.map_map, List.map_map]
  exact List.rel_append h₁ h₂

/-- The text of a plain value reads as its tokens, whatever the layout is. -/
theorem yields_reads (hl : layout.maxDepth = none) : ∀ {n : Nat} {path : List Nat} {v : Value}, Plain store n v →
    Inside store path v → YieldsTokens (valueTokens store n v) (inspectAt layout store n path v) := by
  intro n
  induction n with
  | zero =>
    intro path v h _
    cases h with
    | atom h =>
      rw [h.valueTokens]
      exact yields_reads_atom h _ path
  | succ n ih =>
    intro path v h hin
    cases h with
    | atom h =>
      rw [h.valueTokens]
      exact yields_reads_atom h _ path
    | @table _ r kind metatable distinct keys values =>
      have hnot : ¬ (decide (r.kind ≠ .table) || path.contains r.id) = true := by
        have hmem := hin.not_mem kind (.table kind metatable distinct keys values)
        simpa [kind] using hmem
      have hdepth : ¬ (layout.maxDepth.any fun d => d ≤ path.length) = true := by
        rw [hl]
        exact Bool.false_ne_true
      have hitems : Yields (List.Forall₂ Reads · ((itemsOf (store r.id).entries).map fun e =>
          keyTokens e.1 (valueTokens store n e.2))) _ := yields_reads_tableItems keys
        (fun k hk => yields_reads_atom hk n (r.id :: path))
        (fun e he => ih (values e he) (hin.value kind he)) distinct
      unfold inspectAt
      refine .then fun _ => ?_
      dsimp only
      rw [if_neg hnot, if_neg hdepth]
      split
      · rename_i hempty
        have hitems : itemsOf (store r.id).entries = [] := by
          simp only [Bool.and_eq_true, List.isEmpty_iff] at hempty
          rw [itemsOf, hempty.1.1, hempty.1.2]
          rfl
        rw [valueTokens, hitems]
        exact .pure (.sign rfl reads_closing)
      · rw [metatable]
        exact .bind hitems fun items h => .pure (reads_arrange layout path.length _ h)

end Printer

/-! ## Tokens tell values apart -/

section Tokens

variable {store store' : Store} {n : Nat}

/-- The text of a value begins with a scalar or an opening brace. -/
theorem exists_cons_valueTokens {v : Value} (h : Plain store n v) :
    ∃ t ts, valueTokens store n v = t :: ts ∧ t ≠ .closing ∧ t ≠ .equals := by
  cases h with
  | atom h => exact ⟨_, _, h.valueTokens n, by simp, by simp⟩
  | table _ _ _ _ _ => exact ⟨_, _, rfl, by simp, by simp⟩

/-- The tokens of some items. -/
def itemTokens (store : Store) (n : Nat) (items : List Item) : List Token :=
  (items.map fun e => keyTokens e.1 (valueTokens store n e.2)).flatten

theorem itemTokens_cons (e : Item) (items : List Item) : itemTokens store n (e :: items) =
    keyTokens e.1 (valueTokens store n e.2) ++ itemTokens store n items := rfl

/-- An item begins neither with a closing brace nor with an equals sign. -/
theorem exists_cons_keyTokens {e : Item} (h : Plain store n e.2) :
    ∃ t ts, keyTokens e.1 (valueTokens store n e.2) = t :: ts ∧ t ≠ .closing ∧ t ≠ .equals := by
  obtain ⟨key?, v⟩ := e
  cases key? with
  | none => exact exists_cons_valueTokens h
  | some k => exact ⟨.scalar k, _, rfl, by simp, by simp⟩

/-- A scalar without key is not taken for a key: no equals sign comes behind it. -/
theorem itemTokens_append_ne_equals {items : List Item} (h : ∀ e ∈ items, Plain store n e.2) (r r' : List Token) :
    itemTokens store n items ++ .closing :: r ≠ .equals :: r' := by
  cases items with
  | nil => exact fun heq => absurd (List.cons.inj heq).1 (by simp)
  | cons e items =>
    obtain ⟨t, ts, ht, -, hne⟩ := exists_cons_keyTokens (h e List.mem_cons_self)
    rw [itemTokens_cons, ht]
    exact fun heq => hne (List.cons.inj heq).1

theorem valueTokens_append_ne_key {v k : Value} (h : Plain store n v) {items : List Item}
    (hitems : ∀ e ∈ items, Plain store n e.2) (r r' : List Token) :
    valueTokens store n v ++ (itemTokens store n items ++ .closing :: r) ≠ .scalar k :: .equals :: r' := by
  cases h with
  | atom h =>
    rw [h.valueTokens]
    exact fun heq => itemTokens_append_ne_equals hitems r r' (List.cons.inj heq).2
  | table _ _ _ _ _ => exact fun heq => absurd (List.cons.inj heq).1 (by simp)

/-- The tokens tell whether an item has a key, and which one. -/
theorem key_eq_of_keyTokens {e e' : Item} (hv : Plain store n e.2) (hv' : Plain store' n e'.2) {items items' : List Item}
    {r r' : List Token} (hitems : ∀ e ∈ items, Plain store n e.2) (hitems' : ∀ e ∈ items', Plain store' n e.2)
    (heq : keyTokens e.1 (valueTokens store n e.2) ++ (itemTokens store n items ++ .closing :: r) =
      keyTokens e'.1 (valueTokens store' n e'.2) ++ (itemTokens store' n items' ++ .closing :: r')) :
    e.1 = e'.1 ∧ valueTokens store n e.2 ++ (itemTokens store n items ++ .closing :: r) =
      valueTokens store' n e'.2 ++ (itemTokens store' n items' ++ .closing :: r') := by
  obtain ⟨key?, v⟩ := e
  obtain ⟨key?', v'⟩ := e'
  cases key? with
  | none =>
    cases key?' with
    | none => exact ⟨rfl, heq⟩
    | some k' => exact absurd heq (valueTokens_append_ne_key hv hitems _ _)
  | some k =>
    cases key?' with
    | none => exact absurd heq.symm (valueTokens_append_ne_key hv' hitems' _ _)
    | some k' =>
      obtain ⟨hk, heq⟩ := List.cons.inj heq
      exact ⟨congrArg some (Token.scalar.inj hk), (List.cons.inj heq).2⟩

/-- Items with the same tokens have the same keys and values that are alike. -/
theorem forall₂_of_itemTokens
    (hvalue : ∀ {v v' r r'}, Plain store n v → Plain store' n v' →
      valueTokens store n v ++ r = valueTokens store' n v' ++ r' → Alike store store' v v' ∧ r = r')
    {items items' : List Item} {r r' : List Token} (h : ∀ e ∈ items, Plain store n e.2)
    (h' : ∀ e ∈ items', Plain store' n e.2)
    (heq : itemTokens store n items ++ .closing :: r = itemTokens store' n items' ++ .closing :: r') :
    List.Forall₂ (fun e e' => e.1 = e'.1 ∧ Alike store store' e.2 e'.2) items items' ∧ r = r' := by
  induction items generalizing items' with
  | nil =>
    cases items' with
    | nil => exact ⟨.nil, (List.cons.inj heq).2⟩
    | cons e' items' =>
      obtain ⟨t, ts, ht, hne, -⟩ := exists_cons_keyTokens (h' e' List.mem_cons_self)
      rw [itemTokens_cons, ht] at heq
      exact absurd (List.cons.inj heq).1.symm hne
  | cons e items ih =>
    cases items' with
    | nil =>
      obtain ⟨t, ts, ht, hne, -⟩ := exists_cons_keyTokens (h e List.mem_cons_self)
      rw [itemTokens_cons, ht] at heq
      exact absurd (List.cons.inj heq).1 hne
    | cons e' items' =>
      obtain ⟨hv, hitems⟩ := List.forall_mem_cons.1 h
      obtain ⟨hv', hitems'⟩ := List.forall_mem_cons.1 h'
      rw [itemTokens_cons, itemTokens_cons, List.append_assoc, List.append_assoc] at heq
      obtain ⟨hkey, heq⟩ := key_eq_of_keyTokens hv hv' hitems hitems' heq
      obtain ⟨halike, heq⟩ := hvalue hv hv' heq
      obtain ⟨hall, hr⟩ := ih hitems hitems' heq
      exact ⟨.cons ⟨hkey, halike⟩ hall, hr⟩

/-- Tables whose items have the same keys and values that are alike are alike. -/
theorem alike_of_items {r r' : Ref} (hr : r.kind = .table) (hr' : r'.kind = .table)
    (hdistinct : ((store r.id).entries.map Prod.fst).Nodup) (hdistinct' : ((store' r'.id).entries.map Prod.fst).Nodup)
    (hitems : List.Forall₂ (fun e e' => e.1 = e'.1 ∧ Alike store store' e.2 e'.2) (itemsOf (store r.id).entries)
      (itemsOf (store' r'.id).entries)) : Alike store store' (.ref r) (.ref r') := by
  obtain ⟨hlen, hget⟩ := List.forall₂_iff_get.1 hitems
  -- An entry of one table is found in the other one, as the item at the same place.
  have hforth : ∀ {k v}, (k, v) ∈ (store r.id).entries →
      ∃ v', (k, v') ∈ (store' r'.id).entries ∧ Alike store store' v v' := by
    intro k v hmem
    obtain ⟨i, key?, hi, rfl⟩ := (mem_entries_iff_items hdistinct).1 hmem
    obtain ⟨hlt, he⟩ := List.getElem?_eq_some_iff.1 hi
    obtain ⟨hkey, hvalue⟩ := hget i hlt (hlen ▸ hlt)
    simp only [List.get_eq_getElem, he] at hkey hvalue
    exact ⟨_, (mem_entries_iff_items hdistinct').2 ⟨i, _, List.getElem?_eq_getElem (hlen ▸ hlt), congrArg _ hkey.symm⟩,
      hvalue⟩
  have hback : ∀ {k v'}, (k, v') ∈ (store' r'.id).entries → ∃ v, (k, v) ∈ (store r.id).entries := by
    intro k v' hmem
    obtain ⟨i, key?, hi, rfl⟩ := (mem_entries_iff_items hdistinct').1 hmem
    obtain ⟨hlt, he⟩ := List.getElem?_eq_some_iff.1 hi
    obtain ⟨hkey, -⟩ := hget i (hlen ▸ hlt) hlt
    simp only [List.get_eq_getElem, he] at hkey
    exact ⟨_, (mem_entries_iff_items hdistinct).2 ⟨i, _, List.getElem?_eq_getElem (hlen ▸ hlt), congrArg _ hkey⟩⟩
  refine .table hr hr' (fun k => ?_) fun k v v' hv hv' => ?_
  · simp only [List.mem_map, Prod.exists, exists_and_right, exists_eq_right]
    exact ⟨fun ⟨v, hv⟩ => (hforth hv).imp fun _ h => h.1, fun ⟨v', hv'⟩ => hback hv'⟩
  · obtain ⟨w, hw, halike⟩ := hforth hv
    exact eq_of_mem_entries hdistinct' hw hv' ▸ halike

theorem plain_of_mem_items {entries : List (Value × Value)} (hdistinct : (entries.map Prod.fst).Nodup)
    (h : ∀ e ∈ entries, Plain store n e.2) : ∀ e ∈ itemsOf entries, Plain store n e.2 := by
  intro e he
  obtain ⟨i, hi⟩ := List.getElem?_of_mem he
  exact h (itemKey i e.1, e.2) ((mem_entries_iff_items hdistinct).2 ⟨i, e.1, hi, rfl⟩)

/-- An atom is told from everything else. -/
theorem alike_of_tokens_atom {v v' : Value} {r r' : List Token} (h : Atom v) (h' : Plain store' n v')
    (heq : valueTokens store n v ++ r = valueTokens store' n v' ++ r') : Alike store store' v v' ∧ r = r' := by
  rw [h.valueTokens] at heq
  cases h' with
  | atom h' =>
    rw [h'.valueTokens] at heq
    obtain ⟨hv, hr⟩ := List.cons.inj heq
    obtain rfl := Token.scalar.inj hv
    exact ⟨.scalar h.isScalar, hr⟩
  | table _ _ _ _ _ => exact absurd (List.cons.inj heq).1 (by simp)

/-- Plain values with the same tokens are alike. -/
theorem alike_of_tokens {v v' : Value} {r r' : List Token} (h : Plain store n v) (h' : Plain store' n v')
    (heq : valueTokens store n v ++ r = valueTokens store' n v' ++ r') : Alike store store' v v' ∧ r = r' := by
  induction n generalizing v v' r r' with
  | zero =>
    cases h with
    | atom h => exact alike_of_tokens_atom h h' heq
  | succ n ih =>
    cases h with
    | atom h => exact alike_of_tokens_atom h h' heq
    | table kind _ distinct _ values =>
      cases h' with
      | atom h' =>
        rw [h'.valueTokens] at heq
        exact absurd (List.cons.inj heq).1 (by simp)
      | table kind' _ distinct' _ values' =>
        rw [valueTokens, valueTokens, List.append_assoc, List.append_assoc] at heq
        obtain ⟨hitems, hr⟩ := forall₂_of_itemTokens ih (plain_of_mem_items distinct values)
          (plain_of_mem_items distinct' values') (List.cons.inj heq).2
        exact ⟨alike_of_items kind kind' distinct distinct' hitems, hr⟩

end Tokens

/-- Plain values that are shown by the same text are alike, also if they are laid out differently. -/
theorem alike_of_inspect_eq {layout layout' : Layout} {store store' : Store} {v v' : Value}
    (hl : layout.maxDepth = none) (hl' : layout'.maxDepth = none) (h : Plain store deepest v)
    (h' : Plain store' deepest v') (heq : inspect layout store v = inspect layout' store' v') :
    Alike store store' v v' := by
  have hreads : Reads (inspect layout store v).toList (valueTokens store deepest v) := by
    rw [inspect, String.toList_ofList]
    exact yields_reads hl h (List.forall_mem_nil _) []
  have hreads' : Reads (inspect layout' store' v').toList (valueTokens store' deepest v') := by
    rw [inspect, String.toList_ofList]
    exact yields_reads hl' h' (List.forall_mem_nil _) []
  have htokens := hreads [] (by simp [Ends])
  rw [heq, hreads' [] (by simp [Ends])] at htokens
  exact (alike_of_tokens h h' htokens.symm).1

/-- Two tables that hold the same entries in different orders. -/
theorem alike_of_inspect_permuted :
    let store : Store := fun id =>
      if id = 0 then ⟨[(.int 1, .bool true), (.text "a b", .int 7)], none⟩
      else ⟨[(.text "a b", .int 7), (.int 1, .bool true)], none⟩
    Plain store deepest (.ref ⟨.table, 0⟩) ∧ Plain store deepest (.ref ⟨.table, 1⟩) ∧
      inspect {} store (.ref ⟨.table, 0⟩) = inspect {} store (.ref ⟨.table, 1⟩) ∧
      Alike store store (.ref ⟨.table, 0⟩) (.ref ⟨.table, 1⟩) := by
  intro store
  have hchars : "a b".toList = ['a', ' ', 'b'] := by decide
  have hreadable : ∀ c ∈ "a b".toList, Readable c := by
    rw [hchars, List.forall_mem_cons, List.forall_mem_cons, List.forall_mem_singleton]
    decide
  have htext : Atom (.text "a b") := .text hreadable
  have hplain : Plain store deepest (.ref ⟨.table, 0⟩) := by
    refine .table rfl rfl (by decide) ?_ ?_
    · exact List.forall_mem_cons.2 ⟨.int 1, List.forall_mem_singleton.2 htext⟩
    · exact List.forall_mem_cons.2 ⟨.atom (.bool true), List.forall_mem_singleton.2 (.atom (.int 7))⟩
  have hplain' : Plain store deepest (.ref ⟨.table, 1⟩) := by
    refine .table rfl rfl (by decide) ?_ ?_
    · exact List.forall_mem_cons.2 ⟨htext, List.forall_mem_singleton.2 (.int 1)⟩
    · exact List.forall_mem_cons.2 ⟨.atom (.int 7), List.forall_mem_singleton.2 (.atom (.bool true))⟩
  have heq : inspect {} store (.ref ⟨.table, 0⟩) = inspect {} store (.ref ⟨.table, 1⟩) := by
    have hsplit : splitEntries (store 0).entries = ([.bool true], [(.text "a b", .int 7)]) := by
      simp [store, splitEntries, sequenceFrom, entryAt?, Value.index?]
    have hsplit' : splitEntries (store 1).entries = ([.bool true], [(.text "a b", .int 7)]) := by
      simp [store, splitEntries, sequenceFrom, entryAt?, Value.index?]
    rw [inspect, inspect, deepest]
    unfold inspectAt
    dsimp only
    rw [hsplit, hsplit']
    decide +kernel
  exact ⟨hplain, hplain', heq, alike_of_inspect_eq rfl rfl hplain hplain' heq⟩

end Scratchpad.Inspect
