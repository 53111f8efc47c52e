import Scratchpad.Proofs.Inspect

/-!
# White space between tokens

The widths of a layout decide where a table is broken into lines, and nothing else. A scan of a text knows at each
character whether it stands in a quoted string (`Scan`), and `squeeze` deletes the spaces and line feeds outside. Main
statement: squeezed texts do not depend on the widths, and every line feed of a text is one between the items of a table
(`inspect_squeeze`).
-/

namespace Scratchpad.Inspect

/-! ## Scans -/

/-- Where the next character of a text stands: outside of quoted strings, in one, or behind a backslash in one. -/
inductive Scan where
  | outside | quoted | escaped
  deriving DecidableEq, Repr

namespace Scan

def next : Scan → Char → Scan
  | outside, c => if c = '\x22' then quoted else outside
  | quoted, c => if c = '\\' then escaped else if c = '\x22' then outside else quoted
  | escaped, _ => quoted

/-- Where the character behind a text stands. -/
def after (s : Scan) (cs : List Char) : Scan :=
  cs.foldl next s

/-- The text without the spaces and line feeds outside of quoted strings. -/
def squeeze : Scan → List Char → List Char
  | _, [] => []
  | s, c :: cs => if s = outside ∧ (c = ' ' ∨ c = '\n') then squeeze s cs else c :: squeeze (s.next c) cs

variable {s : Scan} {cs ds : List Char}

theorem after_append (s : Scan) (cs ds : List Char) : s.after (cs ++ ds) = (s.after cs).after ds :=
  List.foldl_append

theorem squeeze_append (s : Scan) (cs ds : List Char) :
    s.squeeze (cs ++ ds) = s.squeeze cs ++ (s.after cs).squeeze ds := by
  induction cs generalizing s with
  | nil => rfl
  | cons c cs ih =>
    have hafter : s.after (c :: cs) = (s.next c).after cs := rfl
    rw [List.cons_append, squeeze, squeeze, hafter]
    split
    · rename_i h
      obtain ⟨rfl, hc⟩ := h
      have hstay : outside.next c = outside := by
        rcases hc with rfl | rfl <;> rfl
      rw [ih, hstay]
    · rw [ih, List.cons_append]

/-- A scan that no character leads away stays. -/
theorem after_eq_self (h : ∀ c ∈ cs, s.next c = s) : s.after cs = s := by
  induction cs with
  | nil => rfl
  | cons c cs ih =>
    have hstep : s.after (c :: cs) = (s.next c).after cs := rfl
    rw [hstep, h c List.mem_cons_self, ih fun d hd => h d (List.mem_cons_of_mem c hd)]

theorem outside_after_unquoted (h : Unquoted cs) : outside.after cs = outside :=
  after_eq_self fun c hc => if_neg (isUnquoted_iff.1 (h c hc)).2.2

/-! ## Quoted strings -/

theorem quoted_next {c : Char} (hbackslash : c ≠ '\\') (hquote : c ≠ '\x22') : quoted.next c = quoted := by
  rw [next, if_neg hbackslash, if_neg hquote]

/-- Digits lead neither out of a quoted string nor behind a backslash. -/
theorem quoted_next_of_isDigit {c : Char} (h : c.isDigit = true) : quoted.next c = quoted := by
  apply quoted_next <;> rintro rfl <;> exact absurd h (by decide)

theorem quoted_after_number (n : Nat) : quoted.after ('\\' :: natDigits n) = quoted := by
  have hdigits := digits_natDigits n
  obtain ⟨d, ds, hds⟩ := List.exists_cons_of_ne_nil (natDigits_ne_nil n)
  rw [hds] at hdigits ⊢
  change quoted.after ds = quoted
  exact after_eq_self fun c hc => quoted_next_of_isDigit (hdigits c (List.mem_cons_of_mem d hc))

/-- A character that has no escape by a letter stands for itself. -/
theorem quoted_next_of_escapeLetter? {c : Char} (h : escapeLetter? c = none) : quoted.next c = quoted := by
  apply quoted_next <;> rintro rfl <;> cases h

theorem quoted_after_quoteChar (c : Char) : quoted.after (quoteChar c) = quoted := by
  unfold quoteChar
  split
  · rfl
  · split
    · exact quoted_after_number _
    · exact quoted_next_of_escapeLetter? ‹_›

theorem quoted_after_quoteByte (b : UInt8) : quoted.after (quoteByte b) = quoted := by
  unfold quoteByte
  dsimp only
  split
  · rfl
  · split
    · exact quoted_after_number _
    · exact quoted_next_of_escapeLetter? ‹_›

/-- A string is closed by its last quote. -/
theorem outside_after_quotes {α : Type} {f : α → List Char} (h : ∀ a, quoted.after (f a) = quoted) (l : List α) :
    outside.after ('\x22' :: l.flatMap f ++ ['\x22']) = outside := by
  have hbody : quoted.after (l.flatMap f) = quoted := by
    induction l with
    | nil => rfl
    | cons a l ih => rw [List.flatMap_cons, after_append, h, ih]
  change quoted.after (l.flatMap f ++ ['\x22']) = outside
  rw [after_append, hbody]
  rfl

theorem outside_after_quoteText (cs : List Char) : outside.after (quoteText cs) = outside :=
  outside_after_quotes quoted_after_quoteChar cs

theorem outside_after_quoteBytes (bs : List UInt8) : outside.after (quoteBytes bs) = outside := by
  unfold quoteBytes
  split
  · exact outside_after_quoteText _
  · exact outside_after_quotes quoted_after_quoteByte bs

end Scan

open Scan

/-! ## Line feeds -/

/-- A line feed between these texts is one between the items of a table: it ends the line of an opening brace or of a
comma, or stands in front of the line of a closing brace. -/
def IsBreak (before after : List Char) : Prop :=
  before.getLast? = some '\x7b' ∨ before.getLast? = some ',' ∨ ∃ n, List.replicate n ' ' ++ ['\x7d'] <+: after

/-- A character of two texts stands in the first one or in the second one. -/
theorem cons_of_append_eq {cs ds before after : List Char} {c : Char} (h : cs ++ ds = before ++ c :: after) :
    (∃ middle, cs = before ++ c :: middle ∧ after = middle ++ ds) ∨
      ∃ middle, before = cs ++ middle ∧ ds = middle ++ c :: after := by
  rcases List.append_eq_append_iff.1 h with ⟨middle, hbefore, hds⟩ | ⟨middle, hcs, hafter⟩
  · exact .inr ⟨middle, hbefore, hds⟩
  · cases middle with
    | nil => exact .inr ⟨[], by simpa using hcs.symm, hafter.symm⟩
    | cons c' middle =>
      obtain ⟨rfl, rfl⟩ := List.cons.inj hafter
      exact .inl ⟨middle, hcs, rfl⟩

/-- No quoted string of the text is left open, and every line feed stands outside of them and between items. -/
structure Spaced (cs : List Char) : Prop where
  closed : outside.after cs = outside
  feed {before after : List Char} (h : cs = before ++ '\n' :: after) :
    outside.after before = outside ∧ IsBreak before after

namespace Spaced

variable {cs ds before after : List Char}

theorem of_visible (hclosed : outside.after cs = outside) (h : Visible cs) : Spaced cs where
  closed := hclosed
  feed heq := absurd (h '\n' (heq ▸ by simp)) (by decide)

theorem append (hc : Spaced cs) (hd : Spaced ds) : Spaced (cs ++ ds) where
  closed := by rw [after_append, hc.closed, hd.closed]
  feed {before after} heq := by
    rcases cons_of_append_eq heq with ⟨middle, hcs, rfl⟩ | ⟨middle, rfl, hds⟩
    · obtain ⟨hclosed, hbreak⟩ := hc.feed hcs
      exact ⟨hclosed, hbreak.imp_right (.imp_right fun ⟨n, hn⟩ => ⟨n, hn.trans (List.prefix_append _ _)⟩)⟩
    · obtain ⟨hclosed, hbreak⟩ := hd.feed hds
      refine ⟨by rw [after_append, hc.closed, hclosed], ?_⟩
      rcases hbreak with h | h | h
      · exact .inl (by simp [List.getLast?_append, h])
      · exact .inr (.inl (by simp [List.getLast?_append, h]))
      · exact .inr (.inr h)

/-- A text with a single line feed. -/
theorem of_feed (hbefore : Unquoted before) (hafter : Unquoted after) (hbreak : IsBreak before after) :
    Spaced (before ++ '\n' :: after) where
  closed := by
    have hfeed : outside.after ('\n' :: after) = outside.after after := rfl
    rw [after_append, outside_after_unquoted hbefore, hfeed, outside_after_unquoted hafter]
  feed heq := by
    have hno : ∀ {cs}, Unquoted cs → '\n' ∉ cs := fun h hc => absurd (h _ hc) (by decide)
    obtain ⟨rfl, -, rfl⟩ := (List.append_cons_inj_of_notMem (hno hbefore) (hno hafter)).1 heq
    exact ⟨outside_after_unquoted hbefore, hbreak⟩

end Spaced

theorem composed_spaced : Composed Spaced where
  append := Spaced.append
  unquoted h := .of_visible (outside_after_unquoted h) (h.mono fun _ => isVisible_of_isUnquoted)
  quoteText cs := .of_visible (outside_after_quoteText cs) (visible_quoteText cs)
  quoteBytes bs := .of_visible (outside_after_quoteBytes bs) (visible_quoteBytes bs)
  opening := show Spaced (['\x7b'] ++ ['\n']) from .of_feed (.of_all (by decide)) .nil (.inl rfl)
  comma := show Spaced ([','] ++ ['\n']) from .of_feed (.of_all (by decide)) .nil (.inr (.inl rfl))
  closing n := .of_feed .nil ((Only.replicate (by decide) n).append (.of_all (by decide)))
    (.inr (.inr ⟨n, List.prefix_refl _⟩))

/-! ## Squeezed texts -/

variable {cs ds : List Char} {items : List (List Char)}

/-- What is squeezed of a text in front of which no quoted string is open. -/
abbrev squeezed (cs : List Char) : List Char :=
  outside.squeeze cs

theorem squeezed_append (h : outside.after cs = outside) (ds : List Char) :
    squeezed (cs ++ ds) = squeezed cs ++ squeezed ds := by
  rw [squeezed, squeeze_append, h]

theorem squeezed_append_congr {cs' ds' : List Char} (hc : Spaced cs) (hc' : Spaced cs') (h : squeezed cs = squeezed cs')
    (hd : squeezed ds = squeezed ds') : squeezed (cs ++ ds) = squeezed (cs' ++ ds') := by
  rw [squeezed_append hc.closed, squeezed_append hc'.closed, h, hd]

theorem squeezed_replicate (n : Nat) (cs : List Char) : squeezed (List.replicate n ' ' ++ cs) = squeezed cs := by
  induction n with
  | zero => rfl
  | succ n ih => simpa [List.replicate_succ, squeezed, squeeze] using ih

/-- A space or a line feed between tokens is deleted, and any other character is kept. -/
theorem squeezed_cons (c : Char) (h : c ≠ '\x22') (cs : List Char) :
    squeezed (c :: cs) = if c = ' ' ∨ c = '\n' then squeezed cs else c :: squeezed cs := by
  have hstay : outside.next c = outside := if_neg h
  simp only [squeezed, squeeze, hstay, true_and]

theorem squeezed_joinItems {sep : List Char} (hsep : outside.after sep = outside) (h : ∀ t ∈ items, Spaced t) :
    squeezed (joinItems sep items) = joinItems (squeezed sep) (items.map squeezed) := by
  induction items with
  | nil => rfl
  | cons t ts ih =>
    cases ts with
    | nil => rfl
    | cons u us =>
      have ht := (h t List.mem_cons_self).closed
      rw [joinItems, List.append_assoc, squeezed_append ht, squeezed_append hsep,
        ih fun v hv => h v (List.mem_cons_of_mem t hv)]
      simp [joinItems]

/-- However a table is broken, its squeezed items stand between braces and commas. -/
theorem squeezed_arrange (layout : Layout) (level : Nat) (scalars : Bool) (h : ∀ t ∈ items, Spaced t) :
    squeezed (arrange layout level scalars items) = '\x7b' :: joinItems [','] (items.map squeezed) ++ ['\x7d'] := by
  unfold arrange
  dsimp only
  split
  · have hsep : Spaced [',', ' '] := composed_spaced.unquoted (.of_all (by decide))
    have hclosed := (composed_spaced.joinItems hsep h).closed
    have hends : squeezed [',', ' '] = [','] ∧ squeezed [' ', '\x7d'] = ['\x7d'] := by decide
    rw [oneLine, List.cons_append, List.cons_append, squeezed_cons _ (by decide), squeezed_cons _ (by decide),
      if_neg (by decide), if_pos (by decide), squeezed_append hclosed, squeezed_joinItems hsep.closed h, hends.1,
      hends.2]
    rfl
  · have hpadded : ∀ t ∈ items.map fun t => List.replicate (layout.indent * (level + 1)) ' ' ++ t, Spaced t := by
      intro t ht
      obtain ⟨u, hu, rfl⟩ := List.mem_map.1 ht
      exact (composed_spaced.unquoted (.replicate (by decide) _)).append (h u hu)
    have hclosed := (composed_spaced.joinItems composed_spaced.comma hpadded).closed
    have hcomma : squeezed [',', '\n'] = [','] := by decide
    have hclosing : squeezed ('\n' :: List.replicate (layout.indent * level) ' ' ++ ['\x7d']) = ['\x7d'] := by
      rw [List.cons_append, squeezed_cons _ (by decide), if_pos (.inr rfl), squeezed_replicate]
      decide
    rw [manyLines, List.cons_append, List.cons_append, List.append_assoc, List.cons_append,
      squeezed_cons _ (by decide), squeezed_cons _ (by decide), if_neg (by decide), if_pos (by decide),
      squeezed_append hclosed, squeezed_joinItems composed_spaced.comma.closed hpadded, hcomma, hclosing, List.map_map]
    simp [Function.comp_def, squeezed_replicate]

section Texts

variable {layout layout' : Layout} {number : Ref → Nat} {level level' : Nat}

theorem squeezed_keyText (key? : Option (List Char)) {t u : List Char} (ht : Spaced t) (hu : Spaced u)
    (h : squeezed t = squeezed u) : squeezed (keyText key? t) = squeezed (keyText key? u) := by
  cases key? with
  | some k => rfl
  | none =>
    have hbracket : Spaced ['['] := composed_spaced.unquoted (.of_all (by decide))
    exact squeezed_append_congr (hbracket.append ht) (hbracket.append hu)
      (squeezed_append_congr hbracket hbracket rfl h) rfl

theorem squeezed_partText {p : Part Outline}
    (h : ∀ o ∈ p.members, squeezed (o.text layout number level) = squeezed (o.text layout' number level')) :
    squeezed (Outline.partText layout number level p) = squeezed (Outline.partText layout' number level' p) := by
  have htext : ∀ layout level o, Spaced (Outline.text layout number level o) := fun layout level o =>
    composed_spaced.text layout number o level
  cases p with
  | positional o => exact h o (by simp [Part.members])
  | metatable o =>
    have hsign : Spaced "<metatable> = ".toList := composed_spaced.unquoted (.of_all (by decide))
    exact squeezed_append_congr hsign hsign rfl (h o (by simp [Part.members]))
  | entry k v =>
    have hkey : ∀ layout level, Spaced (keyText k.bare? (k.text layout number level)) := fun layout level =>
      composed_spaced.keyText composed_spaced.bare? (htext layout level k)
    have hequals : Spaced " = ".toList := composed_spaced.unquoted (.of_all (by decide))
    have hbrackets := squeezed_keyText k.bare? (htext layout level k) (htext layout' level' k)
      (h k (by simp [Part.members]))
    exact squeezed_append_congr ((hkey _ _).append hequals) ((hkey _ _).append hequals)
      (squeezed_append_congr (hkey _ _) (hkey _ _) hbrackets rfl) (h v (by simp [Part.members]))

/-- The squeezed text of an outline depends on its numbers only. -/
theorem squeezed_text (layout layout' : Layout) (number : Ref → Nat) (o : Outline) : ∀ level level',
    squeezed (o.text layout number level) = squeezed (o.text layout' number level') := by
  induction o using Outline.ind with
  | scalar v => exact fun _ _ => rfl
  | sign r => exact fun _ _ => rfl
  | elided r => exact fun _ _ => rfl
  | table r parts ih =>
    intro level level'
    by_cases hempty : parts = []
    · rw [hempty]
      rfl
    · have hitems : ∀ layout level, ∀ t ∈ parts.map (Outline.partText layout number level), Spaced t := by
        intro layout level t ht
        obtain ⟨p, -, rfl⟩ := List.mem_map.1 ht
        exact composed_spaced.partText layout number level fun o _ => composed_spaced.text layout number o level
      rw [Outline.text_table _ _ _ _ _ hempty, Outline.text_table _ _ _ _ _ hempty, squeezed_arrange _ _ _ (hitems _ _),
        squeezed_arrange _ _ _ (hitems _ _), List.map_map, List.map_map]
      congr 3
      refine List.map_congr_left fun p hp => ?_
      exact squeezed_partText fun o ho => ih p hp o ho _ _

end Texts

/-- Squeezed texts do not depend on the widths. The characters of a text are line feeds and visible ones, and each line
feed stands outside of quoted strings, between the items of a table. -/
theorem inspect_squeeze (maxDepth : Option Nat) (store : Store) (v : Value) (indent inlineWidth : Nat) :
    let text := (inspect ⟨indent, inlineWidth, maxDepth⟩ store v).toList
    (∀ indent' inlineWidth',
        squeezed text = squeezed (inspect ⟨indent', inlineWidth', maxDepth⟩ store v).toList) ∧
      (∀ c ∈ text, c = '\n' ∨ 32 ≤ c.toNat ∧ c.toNat ≠ 127) ∧
      ∀ before after, text = before ++ '\n' :: after → outside.after before = outside ∧ IsBreak before after := by
  intro text
  refine ⟨fun indent' inlineWidth' => ?_, fun c hc => ?_, fun before after h => ?_⟩
  · simp only [text, inspect_eq, String.toList_ofList]
    exact squeezed_text _ _ _ _ _ _
  · simpa [isVisible] using inspect_laid _ store v c hc
  · exact (composed_spaced.inspect _ store v).feed h

end Scratchpad.Inspect
