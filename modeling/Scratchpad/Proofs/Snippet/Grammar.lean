import Mathlib.Data.List.TakeWhile
import Scratchpad.Proofs.Snippet

/-!
# The grammar of snippets that bind names

What is put behind a snippet is fixed by a grammar (`Appends`): the forms of its text without the white space around
it, tried in order, each with the lines that it gets. The readers of `Snippet` are deterministic scans; the grammar only
says how a text can be divided. Main statement: a snippet is followed by just the lines that the grammar gives it, and by
the same lines whatever white space is put around it (`lasting_eq_iff`).
-/

namespace Scratchpad.Snippet

open Text Lua

/-! ## The grammar -/

/-- White space, or nothing. -/
def IsSpaces (w : List Char) : Prop :=
  ∀ c ∈ w, isSpace c = true

instance (w : List Char) : Decidable (IsSpaces w) :=
  decidable_of_iff (w.all isSpace = true) List.all_eq_true

/-- A character between the parts of a list of names. -/
def isDivider (c : Char) : Bool :=
  c == ',' || isSpace c

/-- The parts of a text between its dividers. -/
inductive Parts : List Char → List (List Char) → Prop where
  | nil : Parts [] []
  | divider {c cs names} (hc : isDivider c = true) (h : Parts cs names) : Parts (c :: cs) names
  | part {name cs names} (hne : name ≠ []) (hname : ∀ c ∈ name, isDivider c = false)
      (hend : ∀ c ∈ cs.head?, isDivider c = true) (h : Parts cs names) : Parts (name ++ cs) (name :: names)

/-- A text that begins with a name and holds nothing but names, commas and white space. -/
structure IsNames (list : List Char) (names : List (List Char)) : Prop where
  start : ∃ c r, list = c :: r ∧ isNameStart c = true
  chars : ∀ c ∈ list, isListChar c = true
  parts : Parts list names
  identifiers : ∀ n ∈ names, isIdentifier (String.ofList n) = true

/-- An equals sign and a value that does not begin with another one. -/
def IsValue (r : List Char) : Prop :=
  ∃ value, r = '=' :: value ∧ value ≠ [] ∧ ∀ w value', IsSpaces w → value ≠ w ++ '=' :: value'

/-- `local function name (` and anything after it. -/
def IsLocalFunction (t name : List Char) : Prop :=
  isWord name = true ∧ ∃ w₁ w₂ w₃ r, Gap w₁ ∧ Gap w₂ ∧ IsSpaces w₃ ∧
    t = "local".toList ++ w₁ ++ "function".toList ++ w₂ ++ name ++ w₃ ++ '(' :: r

/-- `names = value`. -/
def IsAssignment (t : List Char) (names : List (List Char)) : Prop :=
  ∃ list w r, IsNames list names ∧ IsSpaces w ∧ IsValue r ∧ t = list ++ w ++ r

/-- `local names = value`. -/
def IsLocalValue (t : List Char) (names : List (List Char)) : Prop :=
  ∃ w t', Gap w ∧ IsAssignment t' names ∧ t = "local".toList ++ w ++ t'

/-- `local names`. -/
def IsLocalNames (t : List Char) (names : List (List Char)) : Prop :=
  ∃ w list, Gap w ∧ IsNames list names ∧ t = "local".toList ++ w ++ list

/-- The lines behind a snippet whose text without the white space around it is `t`. -/
inductive Appends (env : String) (t : List Char) : List String → Prop where
  | localFunction {name} (h : IsLocalFunction t name) : Appends env t [copyLine env name, returnLine [name]]
  | localNames {names} (hfunction : ∀ name, ¬ IsLocalFunction t name)
      (h : IsLocalValue t names ∨ IsLocalNames t names) :
      Appends env t (names.map (copyLine env) ++ [returnLine names])
  | assignment {names} (hfunction : ∀ name, ¬ IsLocalFunction t name)
      (hlocal : ∀ names, ¬ (IsLocalValue t names ∨ IsLocalNames t names)) (h : IsAssignment t names) :
      Appends env t [returnLine names]
  | other (hfunction : ∀ name, ¬ IsLocalFunction t name)
      (hlocal : ∀ names, ¬ (IsLocalValue t names ∨ IsLocalNames t names)) (hassign : ∀ names, ¬ IsAssignment t names) :
      Appends env t []

variable {cs t r list w w' name : List Char} {names : List (List Char)} {c : Char} {word : String}

/-! ## Lists of names -/

theorem splitWhere_ne_nil (p : Char → Bool) (cs : List Char) : splitWhere p cs ≠ [] := by
  cases cs with
  | nil => simp [splitWhere]
  | cons c r =>
    unfold splitWhere
    split
    · simp
    · split <;> simp

theorem splitWhere_append {p : Char → Bool} (hname : ∀ c ∈ name, p c = false) (cs : List Char) :
    ∃ part parts, splitWhere p cs = part :: parts ∧ splitWhere p (name ++ cs) = (name ++ part) :: parts := by
  induction name with
  | nil =>
    obtain ⟨part, parts, h⟩ := List.exists_cons_of_ne_nil (splitWhere_ne_nil p cs)
    exact ⟨part, parts, h, h⟩
  | cons c name ih =>
    obtain ⟨part, parts, h, happend⟩ := ih fun d hd => hname d (List.mem_cons_of_mem c hd)
    refine ⟨part, parts, h, ?_⟩
    rw [List.cons_append, splitWhere, hname c List.mem_cons_self, if_neg (by simp), happend]
    rfl

theorem splitParts_divider (hc : isDivider c = true) (cs : List Char) : splitParts (c :: cs) = splitParts cs := by
  rw [splitParts, splitWhere, if_pos (show (c == ',' || isSpace c) = true from hc), List.filter_cons_of_neg (by simp),
    splitParts]

theorem splitParts_part (hne : name ≠ []) (hname : ∀ c ∈ name, isDivider c = false)
    (hend : ∀ c ∈ cs.head?, isDivider c = true) : splitParts (name ++ cs) = name :: splitParts cs := by
  obtain ⟨part, parts, hcs, happend⟩ := splitWhere_append (p := isDivider) hname cs
  have hsplit : splitParts cs = (part :: parts).filter fun part => !part.isEmpty := by
    rw [← hcs]
    rfl
  have hpart : part = [] := by
    cases cs with
    | nil =>
      cases hcs
      rfl
    | cons d cs =>
      rw [splitWhere, if_pos (hend d rfl)] at hcs
      cases hcs
      rfl
  have happend' : splitParts (name ++ cs) = ((name ++ part) :: parts).filter fun part => !part.isEmpty := by
    rw [← happend]
    rfl
  rw [happend', hsplit, hpart, List.append_nil, List.filter_cons_of_pos (by simpa using hne),
    List.filter_cons_of_neg (by simp)]

/-- The parts of a text are what splitting it yields. -/
theorem parts_iff : Parts cs names ↔ splitParts cs = names := by
  constructor
  · intro h
    induction h with
    | nil => rfl
    | divider hc _ ih => rw [splitParts_divider hc, ih]
    | part hne hname hend _ ih => rw [splitParts_part hne hname hend, ih]
  · rintro rfl
    induction hn : cs.length using Nat.strong_induction_on generalizing cs with
    | _ n ih =>
      cases cs with
      | nil => exact .nil
      | cons c cs =>
        rcases hc : isDivider c with _ | _
        · -- a part reaches as far as there is no divider
          have hsplit : c :: cs =
              (c :: cs).takeWhile (fun c => !isDivider c) ++ (c :: cs).dropWhile (fun c => !isDivider c) :=
            List.takeWhile_append_dropWhile.symm
          have hpart : ∀ d ∈ (c :: cs).takeWhile (fun c => !isDivider c), isDivider d = false := fun d hd => by
            simpa using List.mem_takeWhile_imp hd
          have hne : (c :: cs).takeWhile (fun c => !isDivider c) ≠ [] := by
            rw [List.takeWhile_cons, hc]
            simp
          have hend : ∀ d ∈ ((c :: cs).dropWhile (fun c => !isDivider c)).head?, isDivider d = true := fun d hd => by
            have := List.head?_dropWhile_not (fun c => !isDivider c) (c :: cs)
            rw [Option.mem_def.1 hd] at this
            simpa using this
          have hlt : ((c :: cs).dropWhile (fun c => !isDivider c)).length < n := by
            rw [← hn, List.dropWhile_cons, hc]
            exact Nat.lt_succ_of_le (List.length_dropWhile_le _ cs)
          rw [hsplit, splitParts_part hne hpart hend]
          exact .part hne hpart hend (ih _ hlt rfl)
        · rw [splitParts_divider hc]
          exact .divider hc (ih _ (by rw [← hn]; exact Nat.lt_succ_self _) rfl)

theorem Parts.append_spaces (h : Parts cs names) (hw : IsSpaces w) : Parts (cs ++ w) names := by
  have hdivider : ∀ c ∈ w, isDivider c = true := fun c hc => by rw [isDivider, hw c hc, Bool.or_true]
  induction h with
  | nil =>
    induction w with
    | nil => exact .nil
    | cons c w ih =>
      exact .divider (hdivider c List.mem_cons_self) (ih (fun d hd => hw d (List.mem_cons_of_mem c hd))
        fun d hd => hdivider d (List.mem_cons_of_mem c hd))
  | divider hc _ ih => exact .divider hc ih
  | @part name cs names hne hname hend _ ih =>
    rw [List.append_assoc]
    refine .part hne hname (fun c hc => ?_) ih
    cases cs with
    | nil => exact hdivider c (List.mem_of_mem_head? hc)
    | cons d cs => exact hend c hc

/-! ## Characters -/

theorem not_isDivider (h : isNameRest c = true) : isDivider c = false := by
  have hscan : ∀ n < 128, isNameRest (Char.ofNat n) = true → isDivider (Char.ofNat n) = false := by decide +kernel
  have hc := hscan c.toNat (lt_of_isNameRest h)
  rw [Char.ofNat_toNat] at hc
  exact hc h

theorem not_isNameRest (h : isSpace c = true) : isNameRest c = false :=
  Bool.eq_false_iff.2 fun hc => by
    have hdivider := not_isDivider hc
    rw [isDivider, h, Bool.or_true] at hdivider
    cases hdivider

theorem not_isSpace (h : isNameStart c = true) : isSpace c = false :=
  (Bool.or_eq_false_iff.1 (not_isDivider (isNameRest_of_isNameStart h))).2

theorem isListChar_of_isSpace (h : isSpace c = true) : isListChar c = true := by
  rw [isListChar, h, Bool.or_true, Bool.true_or]

theorem IsNames.names_ne_nil (h : IsNames list names) : names ≠ [] := by
  obtain ⟨c, r, hlist, hc⟩ := h.start
  rintro rfl
  generalize hnames : ([] : List (List Char)) = names at h
  cases h.parts with
  | nil => cases hlist
  | divider hdivider _ =>
    cases hlist
    cases (not_isDivider (isNameRest_of_isNameStart hc)).symm.trans hdivider
  | part => cases hnames

/-- A list of names and white space behind it is split into the names. -/
theorem IsNames.splitNames (h : IsNames list names) (hw : IsSpaces w) : splitNames? (list ++ w) = some names := by
  have hparts : splitParts (list ++ w) = names := parts_iff.1 (h.parts.append_spaces hw)
  simp only [splitNames?, hparts]
  rw [if_neg (by simpa using h.names_ne_nil), if_pos (List.all_eq_true.2 h.identifiers)]

/-! ## The readers -/

theorem stripLeft_spaces (hw : IsSpaces w) (hr : ∀ c ∈ r.head?, isSpace c = false) : stripLeft (w ++ r) = r := by
  rw [stripLeft, List.dropWhile_append_of_pos hw]
  cases r with
  | nil => rfl
  | cons c r => rw [List.dropWhile_cons, hr c rfl, if_neg (by simp)]

theorem afterWord?_gap (word : String) (hw : Gap w) (hr : ∀ c ∈ r.head?, isSpace c = false) :
    afterWord? word (word.toList ++ (w ++ r)) = some r := by
  have hprefix : word.toList.isPrefixOf (word.toList ++ (w ++ r)) = true :=
    List.isPrefixOf_iff_prefix.2 (List.prefix_append ..)
  obtain ⟨c, v, rfl⟩ := List.exists_cons_of_ne_nil hw.nonempty
  have hv : IsSpaces v := fun d hd => hw.spaces d (List.mem_cons_of_mem c hd)
  rw [afterWord?, after?, if_pos hprefix, List.drop_left, List.cons_append]
  dsimp only
  rw [if_pos (hw.spaces c List.mem_cons_self), stripLeft_spaces hv hr]

theorem nameList?_eq_some {rest : List Char} (h : nameList? t = some (list, rest)) :
    t = list ++ rest ∧ (∃ c r, list = c :: r ∧ isNameStart c = true) ∧ ∀ c ∈ list, isListChar c = true := by
  rw [nameList?] at h
  split_ifs at h with hstart
  obtain ⟨rfl, rfl⟩ := Prod.mk.inj (Option.some.inj h)
  refine ⟨List.takeWhile_append_dropWhile.symm, ?_, List.all_eq_true.1 List.all_takeWhile⟩
  cases t with
  | nil => cases hstart
  | cons c r =>
    have hc : isNameStart c = true := by simpa [isWord] using hstart
    have hlist : isListChar c = true := by
      rw [isListChar, isNameRest_of_isNameStart hc, Bool.true_or, Bool.true_or]
    exact ⟨c, r.takeWhile isListChar, by rw [List.takeWhile_cons, if_pos hlist], hc⟩

theorem IsNames.of_splitNames? (hstart : ∃ c r, list = c :: r ∧ isNameStart c = true)
    (hchars : ∀ c ∈ list, isListChar c = true) (h : splitNames? list = some names) : IsNames list names := by
  have hidentifiers := (splitNames?_eq_some h).2
  simp only [splitNames?] at h
  split_ifs at h
  exact ⟨hstart, hchars, parts_iff.2 (Option.some.inj h), hidentifiers⟩

/-- A list of names is read as far as it goes. -/
theorem IsNames.nameList? (h : IsNames list names) (hw : IsSpaces w) (hr : ∀ c ∈ r.head?, isListChar c = false) :
    nameList? (list ++ w ++ r) = some (list ++ w, r) := by
  have hall : ∀ c ∈ list ++ w, isListChar c = true := fun c hc => by
    rcases List.mem_append.1 hc with hc | hc
    · exact h.chars c hc
    · exact isListChar_of_isSpace (hw c hc)
  have hnil : r.takeWhile isListChar = [] ∧ r.dropWhile isListChar = r := by
    cases r with
    | nil => exact ⟨rfl, rfl⟩
    | cons c r =>
      rw [List.takeWhile_cons, List.dropWhile_cons, hr c rfl]
      exact ⟨rfl, rfl⟩
  obtain ⟨c, r', rfl, hc⟩ := h.start
  rw [Snippet.nameList?, List.takeWhile_append_of_pos hall, List.dropWhile_append_of_pos hall, hnil.1, hnil.2,
    List.append_nil, if_pos (by simp [isWord, hc])]

theorem not_isValue_iff {value : List Char} :
    (∀ w value', IsSpaces w → value ≠ w ++ '=' :: value') ↔ (stripLeft value).head? ≠ some '=' := by
  constructor
  · intro h hhead
    obtain ⟨w, hw, hvalue⟩ := stripLeft_eq value
    obtain ⟨value', hvalue'⟩ := List.head?_eq_some_iff.1 hhead
    exact h w value' hw (by rw [← hvalue', ← hvalue])
  · rintro h w value' hw rfl
    exact h (by rw [stripLeft_spaces hw fun c hc => by cases hc; decide]; rfl)

theorem assigned?_iff : assigned? t = some names ↔ IsAssignment t names := by
  constructor
  · intro h
    obtain ⟨⟨list, rest⟩, hlist, hrest⟩ := Option.bind_eq_some_iff.1 h
    obtain ⟨rfl, hstart, hchars⟩ := nameList?_eq_some hlist
    dsimp only at hrest
    split at hrest
    · rename_i value
      obtain ⟨_, hne, hrest⟩ := Option.bind_eq_some_iff.1 hrest
      obtain ⟨_, hhead, hsplit⟩ := Option.bind_eq_some_iff.1 hrest
      refine ⟨list, [], '=' :: value, .of_splitNames? hstart hchars hsplit, fun c hc => (List.not_mem_nil hc).elim, ?_,
        by rw [List.append_nil]⟩
      exact ⟨value, rfl, by simpa using of_guard_eq_some hne, not_isValue_iff.2 (of_guard_eq_some hhead)⟩
    · cases hrest
  · rintro ⟨list, w, r, hnames, hw, ⟨value, rfl, hne, hvalue⟩, rfl⟩
    have hlist := hnames.nameList? hw (r := '=' :: value) fun c hc => by cases hc; decide
    have hempty : (!value.isEmpty) = true := by simpa using hne
    rw [assigned?, hlist]
    simp only [bind, Option.bind, guard, hempty, if_pos, not_isValue_iff.1 hvalue, hnames.splitNames hw, ne_eq,
      not_false_eq_true, pure]

theorem listed?_iff : listed? t = some names ↔ IsNames t names := by
  constructor
  · intro h
    obtain ⟨⟨list, rest⟩, hlist, hrest⟩ := Option.bind_eq_some_iff.1 h
    obtain ⟨rfl, hstart, hchars⟩ := nameList?_eq_some hlist
    obtain ⟨_, hempty, hsplit⟩ := Option.bind_eq_some_iff.1 hrest
    have hnil : rest = [] := by simpa using of_guard_eq_some hempty
    rw [hnil, List.append_nil]
    exact .of_splitNames? hstart hchars hsplit
  · intro h
    have hspaces : IsSpaces [] := fun c hc => (List.not_mem_nil hc).elim
    have hlist := h.nameList? hspaces (r := []) fun c hc => by cases hc
    have hsplit := h.splitNames hspaces
    rw [List.append_nil] at hsplit
    rw [List.append_nil, List.append_nil] at hlist
    rw [listed?, hlist]
    simp only [bind, Option.bind, guard, List.isEmpty_nil, if_pos, hsplit, pure]

theorem localFunction?_iff : localFunction? t = some name ↔ IsLocalFunction t name := by
  constructor
  · intro h
    obtain ⟨hword, w₁, w₂, w₃, r, hw₁, hw₂, hw₃, rfl⟩ := localFunction?_eq_some h
    exact ⟨hword, w₁, w₂, w₃, r, hw₁, hw₂, hw₃, by simp only [List.append_assoc]⟩
  · rintro ⟨hword, w₁, w₂, w₃, r, hw₁, hw₂, hw₃, rfl⟩
    have hname : ∀ c ∈ name, isNameRest c = true := mem_isWord hword
    have hstart : ∀ c ∈ (name ++ (w₃ ++ '(' :: r)).head?, isSpace c = false := fun c hc => by
      cases name with
      | nil => cases hword
      | cons d name =>
        cases hc
        exact not_isSpace (Bool.and_eq_true_iff.1 hword).1
    have hnil : (w₃ ++ '(' :: r).takeWhile isNameRest = [] ∧
        (w₃ ++ '(' :: r).dropWhile isNameRest = w₃ ++ '(' :: r := by
      cases w₃ with
      | nil => exact ⟨rfl, rfl⟩
      | cons d w₃ =>
        rw [List.cons_append, List.takeWhile_cons, List.dropWhile_cons, not_isNameRest (hw₃ d List.mem_cons_self)]
        exact ⟨rfl, rfl⟩
    have hparen : (stripLeft (w₃ ++ '(' :: r)).head? = some '(' := by
      rw [stripLeft_spaces hw₃ fun c hc => by cases hc; decide]
      rfl
    have hlocal := afterWord?_gap "local" hw₁
      (r := "function".toList ++ (w₂ ++ (name ++ (w₃ ++ '(' :: r)))) fun c hc => by cases hc; decide
    rw [localFunction?]
    simp only [List.append_assoc, hlocal, afterWord?_gap "function" hw₂ hstart,
      List.takeWhile_append_of_pos hname, List.dropWhile_append_of_pos hname, hnil, List.append_nil, hparen, hword,
      bind, Option.bind, guard, if_pos, pure]

/-! ## What is put behind a snippet -/

theorem IsAssignment.head (h : IsAssignment t names) (hc : c ∈ t.head?) : isSpace c = false := by
  obtain ⟨list, w, r, hnames, -, -, rfl⟩ := h
  obtain ⟨d, r', rfl, hd⟩ := hnames.start
  cases hc
  exact not_isSpace hd

theorem IsNames.head (h : IsNames t names) (hc : c ∈ t.head?) : isSpace c = false := by
  obtain ⟨d, r, rfl, hd⟩ := h.start
  cases hc
  exact not_isSpace hd

/-- What a reader yields behind `local`, if it reads nothing that begins with white space. -/
theorem afterLocal_iff {read : List Char → Option (List (List Char))} {p : List Char → Prop}
    (hread : ∀ t, read t = some names ↔ p t) (hhead : ∀ t, p t → ∀ c ∈ t.head?, isSpace c = false) :
    (afterWord? "local" t).bind read = some names ↔ ∃ w t', Gap w ∧ p t' ∧ t = "local".toList ++ w ++ t' := by
  rw [Option.bind_eq_some_iff]
  constructor
  · rintro ⟨t', hlocal, ht'⟩
    obtain ⟨w, hw, rfl⟩ := afterWord?_eq_some hlocal
    exact ⟨w, t', hw, (hread t').1 ht', (List.append_assoc ..).symm⟩
  · rintro ⟨w, t', hw, ht', rfl⟩
    rw [List.append_assoc]
    exact ⟨t', afterWord?_gap "local" hw (hhead t' ht'), (hread t').2 ht'⟩

theorem localValue_iff : (afterWord? "local" t).bind assigned? = some names ↔ IsLocalValue t names :=
  afterLocal_iff (fun _ => assigned?_iff) fun _ h _ hc => h.head hc

theorem localNames_iff : (afterWord? "local" t).bind listed? = some names ↔ IsLocalNames t names :=
  afterLocal_iff (fun _ => listed?_iff) fun _ h _ hc => h.head hc

theorem eq_none_iff {α : Type} {o : Option α} {p : α → Prop} (h : ∀ a, o = some a ↔ p a) : o = none ↔ ∀ a, ¬ p a := by
  simp only [Option.eq_none_iff_forall_ne_some, ne_eq, h]

/-- The form of a text is its form in the grammar. -/
theorem appends_appendix (env : String) (t : List Char) : Appends env t ((Shape.ofText t).appendix env) := by
  rw [Shape.ofText]
  split
  · rename_i name h
    exact .localFunction (localFunction?_iff.1 h)
  · rename_i hfunction
    have hfunction : ∀ name, ¬ IsLocalFunction t name := fun name h => by
      rw [localFunction?_iff.2 h] at hfunction
      cases hfunction
    split
    · rename_i names h
      exact .localNames hfunction (.inl (localValue_iff.1 h))
    · rename_i hvalue
      split
      · rename_i names h
        exact .localNames hfunction (.inr (localNames_iff.1 h))
      · rename_i hnames
        have hlocal : ∀ names, ¬ (IsLocalValue t names ∨ IsLocalNames t names) := by
          rintro names (h | h)
          · rw [localValue_iff.2 h] at hvalue
            cases hvalue
          · rw [localNames_iff.2 h] at hnames
            cases hnames
        split
        · rename_i names h
          exact .assignment hfunction hlocal (assigned?_iff.1 h)
        · rename_i hassign
          refine .other hfunction hlocal fun names h => ?_
          rw [assigned?_iff.2 h] at hassign
          cases hassign

/-- A list of names has no equals sign. -/
theorem not_localNames {names' : List (List Char)} (h : IsLocalValue t names) : ¬ IsLocalNames t names' := by
  intro h'
  obtain ⟨t', hlocal, hvalue⟩ := Option.bind_eq_some_iff.1 (localValue_iff.2 h)
  obtain ⟨t'', hlocal', hnames⟩ := Option.bind_eq_some_iff.1 (localNames_iff.2 h')
  cases hlocal.symm.trans hlocal'
  obtain ⟨list, w, _, -, -, ⟨value, rfl, -, -⟩, rfl⟩ := assigned?_iff.1 hvalue
  have hequals := (listed?_iff.1 hnames).chars '=' (by simp)
  exact absurd hequals (by decide)

/-- The grammar gives a text no other lines. -/
theorem Appends.eq_appendix {env : String} {lines : List String} (h : Appends env t lines) :
    lines = (Shape.ofText t).appendix env := by
  rw [Shape.ofText]
  cases h with
  | localFunction h =>
    rw [localFunction?_iff.2 h]
    rfl
  | localNames hfunction h =>
    rw [(eq_none_iff fun _ => localFunction?_iff).2 hfunction]
    rcases hvalue : (afterWord? "local" t).bind assigned? with _ | names'
    · rcases h with h | h
      · rw [localValue_iff.2 h] at hvalue
        cases hvalue
      · rw [localNames_iff.2 h]
        rfl
    · rcases h with h | h
      · rw [localValue_iff.2 h] at hvalue
        cases hvalue
        rfl
      · exact absurd h (not_localNames (localValue_iff.1 hvalue))
  | assignment hfunction hlocal h =>
    rw [(eq_none_iff fun _ => localFunction?_iff).2 hfunction,
      (eq_none_iff fun _ => localValue_iff).2 fun names h => hlocal names (.inl h),
      (eq_none_iff fun _ => localNames_iff).2 fun names h => hlocal names (.inr h), assigned?_iff.2 h]
    rfl
  | other hfunction hlocal hassign =>
    rw [(eq_none_iff fun _ => localFunction?_iff).2 hfunction,
      (eq_none_iff fun _ => localValue_iff).2 fun names h => hlocal names (.inl h),
      (eq_none_iff fun _ => localNames_iff).2 fun names h => hlocal names (.inr h),
      (eq_none_iff fun _ => assigned?_iff).2 hassign]
    rfl

theorem stripRight_append (hw : IsSpaces w) (cs : List Char) : stripRight (cs ++ w) = stripRight cs := by
  rw [stripRight, stripRight, List.reverse_append,
    List.dropWhile_append_of_pos fun c hc => hw c (List.mem_reverse.1 hc)]

/-- White space around a text is stripped off. -/
theorem strip_append (hw : IsSpaces w) (hw' : IsSpaces w') (cs : List Char) : strip (w ++ cs ++ w') = strip cs := by
  rw [strip, strip, List.append_assoc, stripLeft, List.dropWhile_append_of_pos hw, List.dropWhile_append]
  split
  · rename_i hempty
    have hnil : stripLeft cs = [] := List.isEmpty_iff.1 hempty
    have hspaces : w'.dropWhile isSpace = [] := List.dropWhile_eq_nil_iff.2 hw'
    rw [hnil, hspaces]
  · exact stripRight_append hw' _

/-- A snippet is followed by the lines that the grammar gives its text without the white space around it, and by the
same lines whatever white space is put around it. -/
theorem lasting_eq_iff (env code : String) :
    (∀ text, lasting env code = text ↔
      ∃ lines, Appends env (strip code.toList) lines ∧ text = joinLines (code :: lines)) ∧
    ∀ w w' lines, IsSpaces w → IsSpaces w' → Appends env (strip code.toList) lines →
      lasting env (String.ofList (w ++ code.toList ++ w')) =
        joinLines (String.ofList (w ++ code.toList ++ w') :: lines) := by
  refine ⟨fun text => ⟨?_, ?_⟩, ?_⟩
  · rintro rfl
    exact ⟨_, appends_appendix env _, rfl⟩
  · rintro ⟨lines, hlines, rfl⟩
    rw [lasting, shape, hlines.eq_appendix]
  · intro w w' lines hw hw' hlines
    rw [lasting, shape, String.toList_ofList, strip_append hw hw', hlines.eq_appendix]

/-- A declaration of two names, with an empty line before it and one behind it. -/
theorem lasting_local_names :
    lasting "_ENV" "\nlocal x, y\n" = "\nlocal x, y\n\n_ENV[\"x\"] = x\n_ENV[\"y\"] = y\nreturn x, y" := by
  have hparts : Parts "x, y".toList ["x".toList, "y".toList] := parts_iff.2 (by decide +kernel)
  have hlist : IsNames "x, y".toList ["x".toList, "y".toList] :=
    ⟨⟨'x', ", y".toList, rfl, rfl⟩, List.all_eq_true.1 (by decide), hparts, by decide +kernel⟩
  have hnames : IsLocalNames (strip "local x, y".toList) ["x".toList, "y".toList] :=
    ⟨" ".toList, "x, y".toList, ⟨by decide, List.all_eq_true.1 (by decide)⟩, hlist, by decide +kernel⟩
  have hfunction : ∀ name, ¬ IsLocalFunction (strip "local x, y".toList) name :=
    (eq_none_iff fun _ => localFunction?_iff).1 (by decide +kernel)
  exact (lasting_eq_iff "_ENV" "local x, y").2 ['\n'] ['\n'] _ (by decide) (by decide)
    (.localNames hfunction (.inr hnames))

end Scratchpad.Snippet
