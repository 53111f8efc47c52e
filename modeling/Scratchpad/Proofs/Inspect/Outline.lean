import Mathlib.Data.List.Infix
import Scratchpad.Inspect.Layout

/-!
# The outline of a shown value

The printer numbers objects while it lays out their text. Here the two are taken apart: the `outline` of a value says
what is shown at each occurrence and needs neither numbers nor widths, `refs` lists the objects of an outline in the
order in which they are reached, and `text` lays an outline out with any numbers. Main statements:

- the text of a value is that of its outline, where the number of an object is its rank among the objects of its kind
  in the order in which they are first reached (`inspect_eq`);
- what stands at an occurrence is the outline of the value there, inside the tables around it (`Has.eq_outline`).
-/

namespace Scratchpad.Inspect

/-! ## Parts of tables -/

/-- A part of a table, whose members are of type `α`. -/
inductive Part (α : Type) where
  /-- A value of the sequence. -/
  | positional (value : α)
  | entry (key value : α)
  | metatable (value : α)

namespace Part

variable {α β : Type}

/-- The members of a part, in the order in which they are shown. -/
def members : Part α → List α
  | positional v => [v]
  | entry k v => [k, v]
  | metatable m => [m]

def map (f : α → β) : Part α → Part β
  | positional v => positional (f v)
  | entry k v => entry (f k) (f v)
  | metatable m => metatable (f m)

theorem members_map (f : α → β) (p : Part α) : (p.map f).members = p.members.map f := by
  cases p <;> rfl

theorem map_map {γ : Type} (g : β → γ) (f : α → β) (p : Part α) : (p.map f).map g = p.map fun a => g (f a) := by
  cases p <;> rfl

theorem map_congr {f g : α → β} {p : Part α} (h : ∀ a ∈ p.members, f a = g a) : p.map f = p.map g := by
  cases p with
  | positional v => rw [map, map, h v (by simp [members])]
  | entry k v => rw [map, map, h k (by simp [members]), h v (by simp [members])]
  | metatable m => rw [map, map, h m (by simp [members])]

end Part

/-- The parts of a table in the order in which they are shown: the sequence, the other entries by their keys, and the
metatable. -/
def Table.parts (t : Table) : List (Part Value) :=
  (splitEntries t.entries).1.map .positional ++ (splitEntries t.entries).2.map (fun e => .entry e.1 e.2) ++
    t.metatable.toList.map .metatable

/-! ## Outlines -/

/-- What is shown of a value. -/
inductive Outline where
  | scalar (v : Value)
  /-- An object that is shown by its kind and its number. -/
  | sign (r : Ref)
  /-- A table that is not opened for its depth. -/
  | elided (r : Ref)
  | table (r : Ref) (parts : List (Part Outline))

namespace Outline

/-- An outline has a property if tables have it whenever all their members do. -/
theorem ind {motive : Outline → Prop} (scalar : ∀ v, motive (.scalar v)) (sign : ∀ r, motive (.sign r))
    (elided : ∀ r, motive (.elided r))
    (table : ∀ r parts, (∀ p ∈ parts, ∀ o ∈ p.members, motive o) → motive (.table r parts)) : ∀ o, motive o := fun o =>
  @Outline.rec motive (fun parts => ∀ p ∈ parts, ∀ o ∈ p.members, motive o) (fun p => ∀ o ∈ p.members, motive o)
    scalar sign elided table (by simp)
    (fun _ _ hp hps => List.forall_mem_cons.2 ⟨hp, hps⟩) (fun _ ho => by simpa [Part.members] using ho)
    (fun _ _ hk hv => by simpa [Part.members] using ⟨hk, hv⟩) (fun _ ho => by simpa [Part.members] using ho) o

/-- The value that is shown. -/
def value : Outline → Value
  | scalar v => v
  | sign r => .ref r
  | elided r => .ref r
  | table r _ => .ref r

def isScalar : Outline → Bool
  | scalar _ => true
  | _ => false

/-- The text of a key without brackets, if it is shown so. -/
def bare? : Outline → Option (List Char)
  | scalar k => bareKey? k
  | _ => none

mutual

/-- The objects in the order in which they are reached: a table in front of its members. -/
def refs : Outline → List Ref
  | scalar _ => []
  | sign r => [r]
  | elided r => [r]
  | table r parts => r :: partsRefs parts

def partsRefs : List (Part Outline) → List Ref
  | [] => []
  | p :: ps => partRefs p ++ partsRefs ps

def partRefs : Part Outline → List Ref
  | .positional o => o.refs
  | .entry k v => k.refs ++ v.refs
  | .metatable o => o.refs

end

theorem refs_table (r : Ref) (parts : List (Part Outline)) :
    (table r parts).refs = r :: parts.flatMap fun p => p.members.flatMap refs := by
  rw [refs]
  congr 1
  induction parts with
  | nil => rfl
  | cons p ps ih =>
    rw [partsRefs, ih, List.flatMap_cons]
    congr 1
    cases p <;> simp [partRefs, Part.members]

/-! ## Occurrences -/

/-- The outline `u` occurs inside the tables `inner`, the innermost first. -/
inductive Has : Outline → List Nat → Outline → Prop where
  | self {o : Outline} : Has o [] o
  | part {r : Ref} {parts : List (Part Outline)} {p : Part Outline} {o u : Outline} {inner : List Nat} (hp : p ∈ parts)
      (ho : o ∈ p.members) (h : Has o inner u) : Has (table r parts) (inner ++ [r.id]) u

/-- The objects of an occurrence are reached. -/
theorem Has.refs_subset {o u : Outline} {inner : List Nat} (h : o.Has inner u) : u.refs ⊆ o.refs := by
  induction h with
  | self => exact List.Subset.refl _
  | part hp ho _ ih =>
    intro s hs
    rw [refs_table]
    exact List.mem_cons_of_mem _ (List.mem_flatMap.2 ⟨_, hp, List.mem_flatMap.2 ⟨_, ho, ih hs⟩⟩)

/-- The innermost table around an occurrence is an occurrence itself. -/
theorem Has.parent {o u : Outline} {inner : List Nat} (h : o.Has inner u) (hne : inner ≠ []) :
    ∃ r parts, inner = r.id :: inner.tail ∧ o.Has inner.tail (.table r parts) := by
  induction h with
  | self => exact absurd rfl hne
  | @part r parts p o u inner hp ho h ih =>
    cases inner with
    | nil => exact ⟨r, parts, rfl, .self⟩
    | cons a inner =>
      obtain ⟨s, parts', hs, htable⟩ := ih (List.cons_ne_nil a inner)
      refine ⟨s, parts', by simpa using hs, ?_⟩
      simpa using htable.part hp ho

theorem mem_refs_of_value {o : Outline} {r : Ref} (h : o.value = .ref r) (hs : o.isScalar = false) : r ∈ o.refs := by
  cases o with
  | scalar v => cases hs
  | sign s | elided s | table s parts =>
    cases h
    simp [refs]

end Outline

/-! ## The text of an outline -/

/-- The sign for an object with the number `n`. -/
def signText (n : Nat) (r : Ref) : List Char :=
  '<' :: r.kind.label.toList ++ ' ' :: natDigits n ++ ['>']

/-- The text of a key: in brackets, unless it is bare. -/
def keyText (bare? : Option (List Char)) (t : List Char) : List Char :=
  bare?.getD ('[' :: t ++ [']'])

/-- The text of a metatable as an item. -/
def metatableText (t : List Char) : List Char :=
  "<metatable> = ".toList ++ t

namespace Outline

/-- The part holds nothing but a scalar, its key apart. -/
def isFlat : Part Outline → Bool
  | .positional o => o.isScalar
  | .entry _ v => v.isScalar
  | .metatable _ => false

section Text

variable (layout : Layout) (number : Ref → Nat)

mutual

/-- The text of an outline inside `level` tables. -/
def text (level : Nat) : Outline → List Char
  | scalar v => scalarText v
  | sign r => signText (number r) r
  | elided _ => ellipsis
  | table _ parts =>
    if parts.isEmpty then ['\x7b', '\x7d'] else arrange layout level (parts.all isFlat) (partsText (level + 1) parts)

def partsText (level : Nat) : List (Part Outline) → List (List Char)
  | [] => []
  | p :: ps => partText level p :: partsText level ps

/-- The text of a part as an item. -/
def partText (level : Nat) : Part Outline → List Char
  | .positional o => o.text level
  | .entry k v => keyText k.bare? (k.text level) ++ " = ".toList ++ v.text level
  | .metatable o => metatableText (o.text level)

end

theorem partsText_eq (level : Nat) (parts : List (Part Outline)) :
    partsText layout number level parts = parts.map (partText layout number level) := by
  induction parts with
  | nil => rfl
  | cons p ps ih => rw [partsText, ih, List.map_cons]

theorem text_table (level : Nat) (r : Ref) (parts : List (Part Outline)) (h : parts ≠ []) :
    (table r parts).text layout number level =
      arrange layout level (parts.all isFlat) (parts.map (partText layout number (level + 1))) := by
  rw [text, partsText_eq, if_neg (by simpa using h)]

end Text

end Outline

/-! ## The outline of a value -/

section Outlines

variable (maxDepth : Option Nat) (store : Store)

/-- What is shown of a value inside the tables `path`, if `room` more may be opened. -/
def outline : Nat → List Nat → Value → Outline
  | room, path, v =>
    match v with
    | .ref r =>
      if r.kind ≠ .table || path.contains r.id then .sign r
      else if maxDepth.any fun d => d ≤ path.length then .elided r
      else match room with
        | 0 => .elided r
        | room + 1 => .table r ((store r.id).parts.map (Part.map (outline room (r.id :: path))))
    | v => .scalar v

end Outlines

section Forms

variable {maxDepth : Option Nat} {store : Store} {room : Nat} {path : List Nat} {v : Value} {r : Ref}

theorem outline_scalar (h : v.isScalar = true) : outline maxDepth store room path v = .scalar v := by
  cases v with
  | ref r => cases h
  | _ => cases room <;> rfl

theorem outline_sign (h : r.kind ≠ .table ∨ r.id ∈ path) : outline maxDepth store room path (.ref r) = .sign r := by
  have hsign : (decide (r.kind ≠ .table) || path.contains r.id) = true := by simpa using h
  cases room <;> rw [outline, if_pos hsign]

theorem outline_of_not_sign (hk : r.kind = .table) (hr : r.id ∉ path) :
    outline maxDepth store room path (.ref r) =
      if maxDepth.any fun d => d ≤ path.length then .elided r
      else match room with
        | 0 => .elided r
        | room + 1 => .table r ((store r.id).parts.map (Part.map (outline maxDepth store room (r.id :: path)))) := by
  have hsign : ¬ (decide (r.kind ≠ .table) || path.contains r.id) = true := by simp [hk, hr]
  cases room <;> rw [outline, if_neg hsign]

theorem outline_elided (hk : r.kind = .table) (hr : r.id ∉ path)
    (hdeep : (∃ d ∈ maxDepth, d ≤ path.length) ∨ room = 0) : outline maxDepth store room path (.ref r) = .elided r := by
  rw [outline_of_not_sign hk hr]
  rcases hdeep with ⟨d, hd, hle⟩ | rfl
  · obtain rfl : maxDepth = some d := hd
    rw [if_pos (by simpa using hle)]
  · split <;> rfl

theorem outline_table (hk : r.kind = .table) (hr : r.id ∉ path) (hdeep : ∀ d ∈ maxDepth, path.length < d) :
    outline maxDepth store (room + 1) path (.ref r) =
      .table r ((store r.id).parts.map (Part.map (outline maxDepth store room (r.id :: path)))) := by
  rw [outline_of_not_sign hk hr, if_neg]
  cases maxDepth with
  | none => simp
  | some d => simpa using hdeep d rfl

/-- The forms that the outline of a value has. -/
theorem outline_cases (maxDepth : Option Nat) (store : Store) (room : Nat) (path : List Nat) (v : Value) :
    (v.isScalar = true ∧ outline maxDepth store room path v = .scalar v) ∨
      ∃ r, v = .ref r ∧
        ((r.kind ≠ .table ∨ r.id ∈ path) ∧ outline maxDepth store room path v = .sign r ∨
          r.kind = .table ∧ r.id ∉ path ∧
            (((∃ d ∈ maxDepth, d ≤ path.length) ∨ room = 0) ∧ outline maxDepth store room path v = .elided r ∨
              (∀ d ∈ maxDepth, path.length < d) ∧ ∃ n, room = n + 1 ∧ outline maxDepth store room path v =
                .table r ((store r.id).parts.map (Part.map (outline maxDepth store n (r.id :: path)))))) := by
  cases v with
  | ref r =>
    refine .inr ⟨r, rfl, ?_⟩
    by_cases hsign : r.kind ≠ .table ∨ r.id ∈ path
    · exact .inl ⟨hsign, outline_sign hsign⟩
    · obtain ⟨hk, hr⟩ := not_or.1 hsign
      have hk : r.kind = .table := not_not.1 hk
      refine .inr ⟨hk, hr, ?_⟩
      by_cases hdeep : (∃ d ∈ maxDepth, d ≤ path.length) ∨ room = 0
      · exact .inl ⟨hdeep, outline_elided hk hr hdeep⟩
      · obtain ⟨hd, hroom⟩ := not_or.1 hdeep
        have hlt : ∀ d ∈ maxDepth, path.length < d := fun d hm => Nat.lt_of_not_le fun hle => hd ⟨d, hm, hle⟩
        obtain ⟨n, rfl⟩ := Nat.exists_eq_succ_of_ne_zero hroom
        exact .inr ⟨hlt, n, rfl, outline_table hk hr hlt⟩
  | _ => exact .inl ⟨rfl, outline_scalar rfl⟩

@[simp]
theorem value_outline : (outline maxDepth store room path v).value = v := by
  rcases outline_cases maxDepth store room path v with
    ⟨-, h⟩ | ⟨r, rfl, ⟨-, h⟩ | ⟨-, -, ⟨-, h⟩ | ⟨-, n, -, h⟩⟩⟩ <;> rw [h] <;> rfl

@[simp]
theorem isScalar_outline : (outline maxDepth store room path v).isScalar = v.isScalar := by
  rcases outline_cases maxDepth store room path v with
    ⟨hs, h⟩ | ⟨r, rfl, ⟨-, h⟩ | ⟨-, -, ⟨-, h⟩ | ⟨-, n, -, h⟩⟩⟩ <;> rw [h]
  · exact hs.symm
  all_goals rfl

@[simp]
theorem bare?_outline : (outline maxDepth store room path v).bare? = bareKey? v := by
  rcases outline_cases maxDepth store room path v with
    ⟨-, h⟩ | ⟨r, rfl, ⟨-, h⟩ | ⟨-, -, ⟨-, h⟩ | ⟨-, n, -, h⟩⟩⟩ <;> rw [h] <;> rfl

/-- What occurs in the outline of a value is the outline of the value there, inside the tables around it. -/
theorem Outline.Has.eq_outline {o u : Outline} {inner : List Nat} (h : o.Has inner u) :
    ∀ {room : Nat} {path : List Nat} {v : Value}, o = outline maxDepth store room path v →
      ∃ n, room = n + inner.length ∧ u = outline maxDepth store n (inner ++ path) u.value := by
  induction h with
  | @self o =>
    rintro room path v rfl
    exact ⟨room, rfl, by simp⟩
  | @part r parts p o u inner hp ho _ ih =>
    intro room path v heq
    rcases outline_cases maxDepth store room path v with
      ⟨-, h⟩ | ⟨r', rfl, ⟨-, h⟩ | ⟨-, -, ⟨-, h⟩ | ⟨-, n, rfl, h⟩⟩⟩ <;> rw [h] at heq <;> cases heq
    obtain ⟨q, -, rfl⟩ := List.mem_map.1 hp
    rw [Part.members_map] at ho
    obtain ⟨w, -, rfl⟩ := List.mem_map.1 ho
    obtain ⟨n', rfl, hu⟩ := ih rfl
    exact ⟨n', by simp; omega, by simpa using hu⟩

end Forms

/-! ## Numbering -/

section Numbering

variable {seen final : Seen} {rs rs' : List Ref} {r : Ref}

/-- The objects reached so far and `rs`, one after the other. -/
def Seen.visit (seen : Seen) (rs : List Ref) : Seen :=
  rs.foldl Seen.reach seen

theorem Seen.visit_append (seen : Seen) (rs rs' : List Ref) : seen.visit (rs ++ rs') = (seen.visit rs).visit rs' :=
  List.foldl_append

theorem Seen.prefix_reach (seen : Seen) (r : Ref) : seen <+: seen.reach r := by
  unfold Seen.reach
  split
  · exact List.prefix_refl seen
  · exact List.prefix_append seen [r]

theorem Seen.mem_reach (seen : Seen) (r : Ref) : r ∈ seen.reach r := by
  unfold Seen.reach
  split
  · simpa using ‹seen.contains r = true›
  · simp

theorem Seen.prefix_visit (seen : Seen) (rs : List Ref) : seen <+: seen.visit rs := by
  induction rs generalizing seen with
  | nil => exact List.prefix_refl seen
  | cons r rs ih => exact (seen.prefix_reach r).trans (ih _)

/-- The number of a reached object does not change any more. -/
theorem Seen.number_of_prefix (h : seen <+: final) (hr : r ∈ seen) : final.number r = seen.number r := by
  obtain ⟨more, rfl⟩ := h
  have hmem : r ∈ seen.filter fun s => s.kind == r.kind := by simpa using hr
  simp only [Seen.number, List.filter_append, List.idxOf_append_of_mem hmem]

/-- What is visited from some objects on: those that are new, each one where it is first visited. -/
theorem Seen.visit_eq (seen : Seen) (rs : List Ref) :
    seen.visit rs = seen ++ (rs.filter fun r => !seen.contains r).eraseDups := by
  induction rs generalizing seen with
  | nil => simp [Seen.visit]
  | cons r rs ih =>
    have hstep : seen.visit (r :: rs) = (seen.reach r).visit rs := rfl
    rw [hstep, ih, Seen.reach]
    by_cases hr : seen.contains r = true
    · rw [if_pos hr, List.filter_cons, if_neg (by simpa using hr)]
    · have hnew : (rs.filter fun s => !(seen ++ [r]).contains s) =
          (rs.filter fun s => !seen.contains s).filter fun s => !s == r := by
        rw [List.filter_filter]
        refine List.filter_congr fun s _ => ?_
        rw [List.contains_eq_mem, List.contains_eq_mem]
        by_cases hs : s = r <;> simp [hs]
      rw [if_neg hr, List.filter_cons, if_pos (by simpa using hr), List.eraseDups_cons, hnew, List.append_assoc]
      rfl

/-- The rank of an object among the objects of its kind, each of which counts where it stands first. -/
def rank (rs : List Ref) (r : Ref) : Nat :=
  (rs.eraseDups.filter fun s => s.kind == r.kind).idxOf r + 1

theorem Seen.number_visit_nil (rs : List Ref) : Seen.number (Seen.visit [] rs) = rank rs := by
  funext r
  rw [Seen.visit_eq, List.nil_append, List.filter_eq_self.2 (by simp)]
  rfl

/-- Duplicates may be erased before or after some of the objects are chosen. -/
theorem filter_eraseDups (f : Ref → Bool) (rs : List Ref) : rs.eraseDups.filter f = (rs.filter f).eraseDups := by
  generalize hn : rs.length = n
  induction n using Nat.strong_induction_on generalizing rs with
  | _ n ih =>
    cases rs with
    | nil => rfl
    | cons r rs =>
      have hlength : (rs.filter fun s => !s == r).length < n :=
        Nat.lt_of_le_of_lt (List.length_filter_le _ _) (hn ▸ Nat.lt_succ_self _)
      rw [List.eraseDups_cons, List.filter_cons, List.filter_cons, ih _ hlength _ rfl]
      by_cases hr : f r = true
      · rw [if_pos hr, if_pos hr, List.eraseDups_cons, List.filter_filter, List.filter_filter]
        simp only [Bool.and_comm]
      · have hne : ((rs.filter fun s => !s == r).filter f) = rs.filter f := by
          rw [List.filter_filter]
          refine List.filter_congr fun s _ => ?_
          by_cases hs : s = r <;> simp [hs, hr]
        rw [if_neg hr, if_neg hr, hne]

/-- Objects of one kind that are reached have the same rank just if they are the same. -/
theorem rank_eq_iff {s : Ref} (hr : r ∈ rs) (hk : r.kind = s.kind) : rank rs r = rank rs s ↔ r = s := by
  have hmem : r ∈ rs.eraseDups.filter fun t => t.kind == s.kind := by simpa [hk] using hr
  simp only [rank, hk, Nat.add_right_cancel_iff]
  exact List.idxOf_inj hmem

end Numbering

/-! ## The printer draws outlines -/

/-- The step reaches the objects `rs`, and yields what `result` gives for the numbers that they get. -/
def Draws {α : Type} (rs : List Ref) (result : (Ref → Nat) → α) (m : Step α) : Prop :=
  ∀ seen final, seen.visit rs <+: final → m.run seen = (result (Seen.number final), seen.visit rs)

section Draws

variable {α β : Type} {rs rs' : List Ref} {a : (Ref → Nat) → α} {m : Step α}

theorem Draws.pure (x : α) : Draws [] (fun _ => x) (Pure.pure x) :=
  fun _ _ _ => rfl

theorem Draws.bind {b : α → (Ref → Nat) → β} {f : α → Step β} (hm : Draws rs a m) (hf : ∀ x, Draws rs' (b x) (f x)) :
    Draws (rs ++ rs') (fun number => b (a number) number) (m >>= f) := by
  intro seen final h
  rw [Seen.visit_append] at h ⊢
  have hfirst := hm seen final ((Seen.prefix_visit _ _).trans h)
  change (f (m.run seen).1).run (m.run seen).2 = _
  rw [hfirst]
  exact hf _ _ _ h

theorem Draws.map (hm : Draws rs a m) (g : α → β) : Draws rs (fun number => g (a number)) (g <$> m) := by
  intro seen final h
  change (g (m.run seen).1, (m.run seen).2) = _
  rw [hm seen final h]

/-- Steps for the members of a list. -/
theorem Draws.mapM {γ : Type} {rs : γ → List Ref} {a : γ → (Ref → Nat) → α} {f : γ → Step α} {l : List γ}
    (h : ∀ c ∈ l, Draws (rs c) (a c) (f c)) :
    Draws (l.flatMap rs) (fun number => l.map fun c => a c number) (l.mapM f) := by
  induction l with
  | nil => exact .pure []
  | cons c l ih =>
    rw [List.mapM_cons]
    have hrest : ∀ x, Draws (l.flatMap rs) (fun number => x :: l.map fun c => a c number)
        (do return x :: (← l.mapM f)) := fun x =>
      (ih fun d hd => h d (List.mem_cons_of_mem c hd)).map (x :: ·)
    exact (h c List.mem_cons_self).bind hrest

end Draws

/-- The step for a part of a table. -/
def partStep (value : Value → Step (List Char)) : Part Value → Step (List Char)
  | .positional v => value v
  | .entry k v => entryItem value (k, v)
  | .metatable m => metatableText <$> value m

/-- The items of a table are its parts. -/
theorem tableItems_eq (value : Value → Step (List Char)) (t : Table) :
    tableItems value (splitEntries t.entries).1 (splitEntries t.entries).2 t.metatable =
      t.parts.mapM (partStep value) := by
  have hentries : (fun e : Value × Value => partStep value (.entry e.1 e.2)) = entryItem value := rfl
  have hvalues : (fun v => partStep value (.positional v)) = value := rfl
  have hlast : ∀ m, [m].mapM (fun m => partStep value (.metatable m)) =
      (fun t => [metatableText t]) <$> value m := by
    intro m
    simp [partStep]
  rw [Table.parts, List.mapM_append, List.mapM_append, tableItems]
  cases t.metatable with
  | none => simp [Function.comp_def, hentries, hvalues]
  | some m =>
    simp only [Option.toList_some, List.mapM_map, Function.comp_def, hentries, hvalues, hlast, bind_assoc, pure_bind]
    rfl

section Printer

variable {layout : Layout} {store : Store}

/-- A part is drawn as its members are. -/
theorem draws_partStep {value : Value → Step (List Char)} {o : Value → Outline} (level : Nat) {p : Part Value}
    (hbare : ∀ k, (o k).bare? = bareKey? k) (hscalar : ∀ k t, bareKey? k = some t → (o k).refs = [])
    (h : ∀ v ∈ p.members, Draws (o v).refs (fun number => (o v).text layout number level) (value v)) :
    Draws ((p.map o).members.flatMap Outline.refs) (fun number => Outline.partText layout number level (p.map o))
      (partStep value p) := by
  cases p with
  | positional v => simpa [Part.map, Part.members, Outline.partText, partStep] using h v (by simp [Part.members])
  | metatable m =>
    simpa [Part.map, Part.members, Outline.partText, partStep] using (h m (by simp [Part.members])).map metatableText
  | entry k v =>
    have hk := h k (by simp [Part.members])
    have hv := h v (by simp [Part.members])
    have hrest : ∀ key : List Char, Draws (o v).refs
        (fun number => key ++ " = ".toList ++ (o v).text layout number level)
        (do return key ++ " = ".toList ++ (← value v)) := fun key => hv.map (key ++ " = ".toList ++ ·)
    simp only [partStep, entryItem, Part.map, Part.members, Outline.partText, hbare, List.flatMap_cons,
      List.flatMap_nil, List.append_nil]
    cases hkey : bareKey? k with
    | some t =>
      rw [hscalar k t hkey]
      exact (Draws.pure t).bind hrest
    | none => exact (hk.map fun t => '[' :: t ++ [']']).bind hrest

theorem isScalar_of_bareKey? {k : Value} {t : List Char} (h : bareKey? k = some t) : k.isScalar = true := by
  cases k <;> first | rfl | cases h

theorem parts_eq_nil_iff (t : Table) : t.parts = [] ↔
    ((splitEntries t.entries).1.isEmpty && (splitEntries t.entries).2.isEmpty && t.metatable.isNone) = true := by
  cases h : t.metatable <;> simp [Table.parts, h]

/-- All parts of a table are flat if its values are scalars and it has no metatable. -/
theorem all_isFlat_parts {o : Value → Outline} (h : ∀ v, (o v).isScalar = v.isScalar) (t : Table) :
    (t.parts.map (Part.map o)).all Outline.isFlat = (t.metatable.isNone &&
      (splitEntries t.entries).1.all Value.isScalar && (splitEntries t.entries).2.all fun e => e.2.isScalar) := by
  have hflat : ∀ p : Part Value, Outline.isFlat (p.map o) = match p with
      | .positional v => v.isScalar
      | .entry _ v => v.isScalar
      | .metatable _ => false := by
    intro p
    cases p <;> simp [Outline.isFlat, Part.map, h]
  simp only [List.all_map, Table.parts, List.all_append, Function.comp_def, hflat]
  cases t.metatable <;> simp [Bool.and_comm]

/-- The sign for an object has the number that the object has when it is reached. -/
theorem draws_sign (r : Ref) :
    Draws [r] (fun number => signText (number r) r)
      (do modify fun seen => seen.reach r; return placeholder (← get) r) := by
  intro seen final h
  have hnumber : Seen.number final r = Seen.number (seen.reach r) r := Seen.number_of_prefix h (seen.mem_reach r)
  change _ = (signText (Seen.number final r) r, _)
  rw [hnumber]
  rfl

/-- A table is reached before what it shows. -/
theorem Draws.reach {α : Type} {rs : List Ref} {a : (Ref → Nat) → α} {m : Step α} (h : Draws rs a m) (r : Ref) :
    Draws (r :: rs) a (do modify fun seen => seen.reach r; m) :=
  fun seen final hf => h (seen.reach r) final hf

theorem inspectAt_scalar {v : Value} (h : v.isScalar = true) (room : Nat) (path : List Nat) :
    inspectAt layout store room path v = pure (scalarText v) := by
  cases v <;> cases room <;> first | rfl | cases h

/-- What is no table, or stands inside itself, is shown by a sign. -/
theorem inspectAt_sign {path : List Nat} {r : Ref} (h : r.kind ≠ .table ∨ r.id ∈ path) (room : Nat) :
    inspectAt layout store room path (.ref r) =
      (do modify fun seen => seen.reach r; return placeholder (← get) r) := by
  have hsign : (decide (r.kind ≠ .table) || path.contains r.id) = true := by simpa using h
  cases room <;> simp only [inspectAt, hsign, if_true]

/-- A table below the limit is left out. -/
theorem inspectAt_elided {path : List Nat} {r : Ref} {room : Nat} (hk : r.kind = .table) (hr : r.id ∉ path)
    (hdeep : (∃ d ∈ layout.maxDepth, d ≤ path.length) ∨ room = 0) :
    inspectAt layout store room path (.ref r) = (do modify fun seen => seen.reach r; return ellipsis) := by
  have hsign : (decide (r.kind ≠ .table) || path.contains r.id) = false := by simp [hk, hr]
  rcases hdeep with ⟨d, hd, hle⟩ | rfl
  · have hlimit : (layout.maxDepth.any fun d => d ≤ path.length) = true := by
      rw [show layout.maxDepth = some d from hd]
      simpa using hle
    cases room <;> simp only [inspectAt, hsign, hlimit, Bool.false_eq_true, if_false, if_true]
  · simp only [inspectAt, hsign, Bool.false_eq_true, if_false, ite_self]

/-- An opened table is shown by its parts. -/
theorem inspectAt_table {path : List Nat} {r : Ref} (hk : r.kind = .table) (hr : r.id ∉ path)
    (hdeep : ∀ d ∈ layout.maxDepth, path.length < d) (room : Nat) :
    inspectAt layout store (room + 1) path (.ref r) = (do
      modify fun seen => seen.reach r
      if (store r.id).parts = [] then return ['\x7b', '\x7d']
      let o := outline layout.maxDepth store room (r.id :: path)
      arrange layout path.length (((store r.id).parts.map (Part.map o)).all Outline.isFlat) <$>
        (store r.id).parts.mapM (partStep (inspectAt layout store room (r.id :: path)))) := by
  have hsign : (decide (r.kind ≠ .table) || path.contains r.id) = false := by simp [hk, hr]
  have hlimit : (layout.maxDepth.any fun d => d ≤ path.length) = false := by
    cases h : layout.maxDepth with
    | none => rfl
    | some d => simpa using hdeep d h
  have hflat := all_isFlat_parts (o := outline layout.maxDepth store room (r.id :: path)) (fun _ => isScalar_outline)
    (store r.id)
  simp only [inspectAt, hsign, hlimit, Bool.false_eq_true, if_false, tableItems_eq, ← parts_eq_nil_iff, hflat]
  rfl

/-- The printer draws the outline of a value. -/
theorem draws_inspectAt (layout : Layout) (store : Store) (room : Nat) : ∀ (path : List Nat) (v : Value),
    Draws (outline layout.maxDepth store room path v).refs
      (fun number => (outline layout.maxDepth store room path v).text layout number path.length)
      (inspectAt layout store room path v) := by
  induction room using Nat.strong_induction_on with
  | _ room ih =>
    intro path v
    rcases outline_cases layout.maxDepth store room path v with
      ⟨hs, ho⟩ | ⟨r, rfl, ⟨hsign, ho⟩ | ⟨hk, hr, ⟨hdeep, ho⟩ | ⟨hlt, n, rfl, ho⟩⟩⟩
    · rw [ho, inspectAt_scalar hs]
      exact .pure _
    · rw [ho, inspectAt_sign hsign]
      exact draws_sign r
    · rw [ho, inspectAt_elided hk hr hdeep]
      exact (Draws.pure ellipsis).reach r
    · rw [ho, inspectAt_table hk hr hlt n, Outline.refs_table, List.flatMap_map]
      refine Draws.reach ?_ r
      by_cases hempty : (store r.id).parts = []
      · simp only [hempty, if_true, List.map_nil, List.flatMap_nil, Outline.text, List.isEmpty_nil]
        exact .pure _
      · have htext := fun number => Outline.text_table layout number path.length r
          ((store r.id).parts.map (Part.map (outline layout.maxDepth store n (r.id :: path)))) (by simpa using hempty)
        have hparts : Draws _ _ ((store r.id).parts.mapM (partStep (inspectAt layout store n (r.id :: path)))) :=
          Draws.mapM fun p _ => draws_partStep (path.length + 1) (fun _ => bare?_outline)
            (fun k t hk => by rw [outline_scalar (isScalar_of_bareKey? hk)]; rfl)
            fun v _ => ih n (Nat.lt_succ_self n) _ v
        simp only [if_neg hempty, htext, List.map_map]
        exact hparts.map _

end Printer

/-- The text of a value is that of its outline. -/
theorem inspect_eq (layout : Layout) (store : Store) (v : Value) :
    let o := outline layout.maxDepth store deepest [] v
    inspect layout store v = String.ofList (o.text layout (rank o.refs) 0) := by
  intro o
  have h := draws_inspectAt layout store deepest [] v [] _ (List.prefix_refl _)
  rw [inspect, h, Seen.number_visit_nil]
  rfl

end Scratchpad.Inspect
