import Scratchpad.Inspect.Layout
import Scratchpad.Proofs.Region
import Scratchpad.Proofs.Settings

/-!
# Reading blocks

The lines of a block tell what it shows. The mark at the front of a line is that of one role only
(`startsWith_text_iff`), the roles come in a fixed order (`place_ofOutcome`), and the lines of a role without their marks
are the text that the outcome has for that role (`content?_ofOutcome`). Main statement: all of this for checked settings
(`decode_ofOutcome`).
-/

namespace Scratchpad

open Text

variable {s : Settings}

/-! ## One mark at the front -/

/-- A line behind a mark begins with that mark and with no other. -/
theorem startsWith_mark_append_iff (hs : s.Valid) (r r' : Role) (l : String) :
    Settings.startsWith (s.mark r ++ l) (s.mark r') = true ↔ r' = r := by
  constructor
  · intro h
    refine Decidable.not_not.1 fun hne => ?_
    rw [Settings.startsWith, String.toList_append, List.isPrefixOf_iff_prefix] at h
    -- Two marks at the front of one line: one of them begins the other.
    rcases List.prefix_or_prefix_of_prefix h (List.prefix_append _ _) with hp | hp
    · have := hs.2.1 r' r hne
      rw [Settings.startsWith, List.isPrefixOf_iff_prefix.2 hp] at this
      cases this
    · have := hs.2.1 r r' (Ne.symm hne)
      rw [Settings.startsWith, List.isPrefixOf_iff_prefix.2 hp] at this
      cases this
  · rintro rfl
    rw [Settings.startsWith, String.toList_append]
    exact isPrefixOf_append _ _

/-- What stands behind the mark of a role at the front of a line. -/
def Settings.unmark? (s : Settings) (r : Role) (line : String) : Option String :=
  if Settings.startsWith line (s.mark r) then some (String.ofList (line.toList.drop (s.mark r).toList.length)) else none

theorem unmark?_mark_append (hs : s.Valid) (r r' : Role) (l : String) :
    s.unmark? r' (s.mark r ++ l) = if r' = r then some l else none := by
  unfold Settings.unmark?
  by_cases h : r' = r
  · subst h
    rw [if_pos ((startsWith_mark_append_iff hs _ _ l).2 rfl), if_pos rfl, String.toList_append, List.drop_left,
      String.ofList_toList]
  · rw [if_neg fun h' => h ((startsWith_mark_append_iff hs _ _ l).1 h'), if_neg h]

/-- The text of some lines; none if there are no lines. -/
def joined? (lines : List String) : Option String :=
  if lines.isEmpty then none else some (joinLines lines)

/-- The text that lines show in a role; none if no line has that role. -/
def Settings.content? (s : Settings) (r : Role) (lines : List String) : Option String :=
  joined? (lines.filterMap (s.unmark? r))

theorem filterMap_unmark? (hs : s.Valid) (r r' : Role) (text : String) :
    ((splitLines text).map (s.mark r ++ ·)).filterMap (s.unmark? r') = if r' = r then splitLines text else [] := by
  have hcomp : s.unmark? r' ∘ (s.mark r ++ ·) = fun l => if r' = r then some l else none :=
    funext fun l => unmark?_mark_append hs r r' l
  rw [List.filterMap_map, hcomp]
  split
  · exact List.filterMap_some
  · exact List.filterMap_eq_nil_iff.2 fun _ _ => rfl

/-- The text of the lines of some texts is that of the texts. -/
theorem joined?_flatMap_splitLines (texts : List String) : joined? (texts.flatMap splitLines) = joined? texts := by
  induction texts with
  | nil => rfl
  | cons t ts ih =>
    have ht := splitLines_ne_nil t
    cases ts with
    | nil =>
      rw [List.flatMap_singleton, joined?, if_neg (by simp [ht]), joinLines_splitLines]
      simp [joined?, joinLines, joinWithChar]
    | cons u us =>
      have hne : (u :: us).flatMap splitLines ≠ [] := by simp [splitLines_ne_nil]
      have hcons : joinLines (t :: u :: us) = joinLines [t] ++ "\n" ++ joinLines (u :: us) :=
        joinLines_append (a := [t]) (List.cons_ne_nil _ _) (List.cons_ne_nil _ _)
      have hih : joinLines ((u :: us).flatMap splitLines) = joinLines (u :: us) := by
        simpa only [joined?, List.isEmpty_eq_false_iff.2 hne, List.isEmpty_cons, Bool.false_eq_true, if_false,
          Option.some.injEq] using ih
      have hone : joinLines [t] = t := by simp [joinLines, joinWithChar]
      rw [List.flatMap_cons, joined?, joined?, if_neg (by simp [ht]), if_neg (by simp), joinLines_append ht hne, hih,
        hcons, joinLines_splitLines, hone]

/-- The text of a single text is that text. -/
theorem joined?_singleton (text : String) : joined? [text] = some text := by
  simp [joined?, joinLines, joinWithChar]

/-! ## The text of a role -/

/-- The texts among some parts that have a role. -/
def textsIn (r : Role) (parts : List (Role × String)) : List String :=
  (parts.filter fun p => p.1 = r).map Prod.snd

theorem textsIn_append (r : Role) (ps qs : List (Role × String)) :
    textsIn r (ps ++ qs) = textsIn r ps ++ textsIn r qs := by
  rw [textsIn, List.filter_append, List.map_append]
  rfl

theorem textsIn_map {α : Type} (r r' : Role) (texts : List α) (f : α → String) :
    textsIn r' (texts.map fun t => (r, f t)) = if r' = r then texts.map f else [] := by
  by_cases h : r' = r
  · simp [textsIn, h, List.filter_eq_self.2]
  · simp [textsIn, h, List.filter_eq_nil_iff.2, Ne.symm h]

theorem textsIn_singleton (r r' : Role) (text : String) : textsIn r' [(r, text)] = if r' = r then [text] else [] :=
  textsIn_map r r' [text] id

/-- The lines of a role show the texts that the outcome has for it. -/
theorem content?_parts (hs : s.Valid) {α : Type} (shown : α → String) (o : Outcome α) (r : Role) :
    s.content? r (Block.ofOutcome s shown o).lines = joined? (textsIn r (Block.parts s shown o)) := by
  rw [Settings.content?, lines_ofOutcome, List.filterMap_flatMap, ← joined?_flatMap_splitLines (textsIn r _)]
  refine congrArg joined? ?_
  induction Block.parts s shown o with
  | nil => rfl
  | cons p ps ih =>
    rw [List.flatMap_cons, ih, filterMap_unmark? hs, ← List.singleton_append, textsIn_append, List.flatMap_append,
      textsIn_singleton p.1 r p.2]
    split
    · rw [List.flatMap_singleton]
    · rfl

/-- The text that an outcome has in a role: the message of a failure, what was printed, the first value, or the other
values. -/
def Outcome.content? {α : Type} (s : Settings) (shown : α → String) (r : Role) : Outcome α → Option String
  | .failure _ message => if r = .error then some message else none
  | .success values output =>
    match r with
    | .output => joined? output
    | .result =>
      match values with
      | v :: _ => some (shown v)
      | [] => if output.isEmpty && s.showNil then some "nil" else none
    | .continuation => joined? (values.tail.map shown)
    | .error => none

/-- The texts of the values in a role. -/
theorem textsIn_valueParts {α : Type} (shown : α → String) (values : List α) (r : Role) :
    textsIn r (Block.valueParts shown values) =
      match r with
      | .result => (values.take 1).map shown
      | .continuation => values.tail.map shown
      | _ => [] := by
  cases values with
  | nil => cases r <;> rfl
  | cons v vs =>
    rw [Block.valueParts, ← List.singleton_append, textsIn_append, textsIn_singleton, textsIn_map]
    cases r <;> simp

/-- The lines of a role without their marks are what the outcome has for that role. -/
theorem content?_ofOutcome (hs : s.Valid) {α : Type} (shown : α → String) (o : Outcome α) (r : Role) :
    s.content? r (Block.ofOutcome s shown o).lines = o.content? s shown r := by
  rw [content?_parts hs]
  cases o with
  | failure stage message =>
    rw [Block.parts, textsIn_singleton, Outcome.content?]
    split
    · exact joined?_singleton message
    · rfl
  | success values output =>
    have hout : textsIn r (output.map fun t => (Role.output, t)) = if r = .output then output else [] :=
      (textsIn_map .output r output id).trans (by rw [List.map_id])
    rw [Block.parts, textsIn_append, hout]
    by_cases hnil : (values.isEmpty && output.isEmpty && s.showNil) = true
    · rw [if_pos hnil, textsIn_singleton]
      simp only [Bool.and_eq_true, List.isEmpty_iff] at hnil
      obtain ⟨⟨rfl, rfl⟩, hshow⟩ := hnil
      cases r with
      | result => simp [Outcome.content?, joined?_singleton, hshow]
      | _ => simp [Outcome.content?, joined?]
    · rw [if_neg hnil, textsIn_valueParts]
      cases r with
      | output => simp [Outcome.content?]
      | error => rfl
      | continuation => simp [Outcome.content?]
      | result =>
        cases values with
        | nil => simpa [Outcome.content?, joined?] using hnil
        | cons v vs => simp [Outcome.content?, joined?_singleton]

/-! ## The order of roles -/

/-- The place of a role among the roles of a block. -/
def Role.place (r : Role) : Nat :=
  Role.all.idxOf r

theorem role_of_mem_ofText {r : Role} {text : String} {l : BlockLine} (h : l ∈ Block.ofText s r text) : l.role = r := by
  obtain ⟨_, -, rfl⟩ := List.mem_map.1 h
  rfl

/-- Texts in the order of their roles make lines in that order. -/
theorem pairwise_place_flatMap {parts : List (Role × String)} (h : parts.Pairwise fun p q => p.1.place ≤ q.1.place) :
    (parts.flatMap fun p => Block.ofText s p.1 p.2).Pairwise fun l m => l.role.place ≤ m.role.place := by
  rw [List.pairwise_flatMap]
  constructor
  · intro p _
    refine List.pairwise_of_forall_mem_list fun l hl m hm => ?_
    have hrole : l.role = m.role := (role_of_mem_ofText hl).trans (role_of_mem_ofText hm).symm
    exact Nat.le_of_eq (congrArg Role.place hrole)
  · refine h.imp fun hpq l hl m hm => ?_
    rw [role_of_mem_ofText hl, role_of_mem_ofText hm]
    exact hpq

/-- Texts of one role stand in the order of roles. -/
theorem pairwise_place_map {α : Type} (r : Role) (f : α → String) (texts : List α) :
    (texts.map fun t => (r, f t)).Pairwise fun p q => p.1.place ≤ q.1.place := by
  refine List.pairwise_of_forall_mem_list fun p hp q hq => ?_
  obtain ⟨_, -, rfl⟩ := List.mem_map.1 hp
  obtain ⟨_, -, rfl⟩ := List.mem_map.1 hq
  exact Nat.le_refl _

theorem pairwise_place_valueParts {α : Type} (shown : α → String) (values : List α) :
    (Block.valueParts shown values).Pairwise fun p q => p.1.place ≤ q.1.place := by
  cases values with
  | nil => exact List.Pairwise.nil
  | cons v vs =>
    refine List.pairwise_cons.2 ⟨fun q hq => ?_, pairwise_place_map _ _ _⟩
    obtain ⟨_, -, rfl⟩ := List.mem_map.1 hq
    have : Role.place .result ≤ Role.place .continuation := by decide
    exact this

/-- What was printed comes first, then the first value, then the other values. -/
theorem place_ofOutcome {α : Type} (shown : α → String) (o : Outcome α) :
    (Block.ofOutcome s shown o).Pairwise fun l m => l.role.place ≤ m.role.place := by
  rw [ofOutcome_eq]
  refine pairwise_place_flatMap ?_
  cases o with
  | failure stage message => exact List.pairwise_singleton _ _
  | success values output =>
    refine List.pairwise_append.2 ⟨pairwise_place_map _ _ _, ?_, fun p hp q _ => ?_⟩
    · split
      · exact List.pairwise_singleton _ _
      · exact pairwise_place_valueParts _ _
    · obtain ⟨_, -, rfl⟩ := List.mem_map.1 hp
      exact Nat.zero_le _

/-- The lines of a failure are error lines, and those of a success are not. -/
theorem role_eq_error_iff {α : Type} {shown : α → String} {o : Outcome α} {l : BlockLine}
    (hl : l ∈ Block.ofOutcome s shown o) : l.role = .error ↔ ∃ stage message, o = .failure stage message := by
  rw [ofOutcome_eq, List.mem_flatMap] at hl
  obtain ⟨p, hp, hl⟩ := hl
  rw [role_of_mem_ofText hl]
  cases o with
  | failure stage message =>
    obtain rfl := List.mem_singleton.1 hp
    simp
  | success values output =>
    simp only [reduceCtorEq, exists_false, iff_false]
    rcases List.mem_append.1 hp with h | h
    · obtain ⟨_, -, rfl⟩ := List.mem_map.1 h
      simp
    · split at h
      · obtain rfl := List.mem_singleton.1 h
        simp
      · cases values with
        | nil => cases h
        | cons v vs =>
          rcases List.mem_cons.1 h with rfl | h
          · simp
          · obtain ⟨_, -, rfl⟩ := List.mem_map.1 h
            simp

/-- The line of a text in a role begins with the mark of that role alone. -/
theorem startsWith_text_iff (hs : s.Valid) {α : Type} {shown : α → String} {o : Outcome α} {l : BlockLine}
    (hl : l ∈ Block.ofOutcome s shown o) (r : Role) : Settings.startsWith l.text (s.mark r) = true ↔ r = l.role := by
  rw [ofOutcome_eq, List.mem_flatMap] at hl
  obtain ⟨p, -, hl⟩ := hl
  obtain ⟨piece, -, rfl⟩ := List.mem_map.1 hl
  exact startsWith_mark_append_iff hs p.1 r piece

/-! ## Decoding -/

/-- The lines of a block can be read back. For settings that pass their checks, each line begins with the mark of its
role and with no other one; the roles stand in their order, and errors stand alone; and the lines of a role without
their marks give the text that the outcome has in that role. -/
theorem decode_ofOutcome {d : Draft} (hd : d.validate = .ok ()) (store : Inspect.Store) (o : Outcome Inspect.Value) :
    let s := d.toSettings
    let shown := Inspect.inspect (.ofSettings s) store
    let b := Block.ofOutcome s shown o
    (∀ l ∈ b, ∀ r, Settings.startsWith l.text (s.mark r) = true ↔ r = l.role) ∧
      (b.Pairwise fun l m => l.role.place ≤ m.role.place) ∧
      (∀ l ∈ b, l.role = .error → ∀ m ∈ b, m.role = .error) ∧
      ∀ r, s.content? r b.lines = o.content? s shown r := by
  have hs := Draft.valid_toSettings hd
  refine ⟨fun l hl r => startsWith_text_iff hs hl r, place_ofOutcome _ o, fun l hl he m hm => ?_,
    content?_ofOutcome hs _ o⟩
  exact (role_eq_error_iff hm).2 ((role_eq_error_iff hl).1 he)

/-- Printed text that looks like a result stays printed text. -/
theorem decode_print_result :
    let b := Block.ofOutcome {} (Inspect.inspect (.ofSettings {}) fun _ => ⟨[], none⟩)
      (.success [.int 7, .bool true, .nil] ["-- => 1", "a\n"])
    Draft.default.validate = .ok () ∧
      b.lines = ["-- print: -- => 1", "-- print: a", "-- print: ", "-- => 7", "--    true", "--    nil"] ∧
      ({} : Settings).content? .output b.lines = some "-- => 1\na\n" ∧
      ({} : Settings).content? .result b.lines = some "7" ∧
      ({} : Settings).content? .continuation b.lines = some "true\nnil" ∧
      ({} : Settings).content? .error b.lines = none := by
  have hd : Draft.default.validate = .ok () := rfl
  have h := (decode_ofOutcome hd (fun _ => ⟨[], none⟩)
    (.success [.int 7, .bool true, .nil] ["-- => 1", "a\n"])).2.2.2
  rw [Draft.toSettings_default] at h
  refine ⟨hd, by decide +kernel, ?_, ?_, ?_, ?_⟩
  all_goals
    rw [h]
    decide +kernel

end Scratchpad
