import Scratchpad.Proofs.Inspect.Signs
import Scratchpad.Proofs.Inspect.Spacing
import Scratchpad.Text.Lines

/-!
# Indentation

How deep a place of a text is nested is the number of braces that are open there, outside of quoted strings
(`openBraces`). A text that leads from so many open braces to so many, and whose lines are indented by the braces around
them, is `Nests`; such texts can be put together, and the text of an outline is one (`Outline.isItem_text`). Main
statement: the lines of a text are indented by the braces that are open around them, and the braces are balanced
(`inspect_nesting`).
-/

namespace Scratchpad.Inspect

open Scan

variable {cs ds before after : List Char} {c : Char} {s : Scan}

/-! ## Open braces -/

/-- What a character outside of quoted strings adds to the open braces. -/
def braceStep (c : Char) : ℤ :=
  if c = '\x7b' then 1 else if c = '\x7d' then -1 else 0

/-- The braces that a text opens less those that it closes, outside of quoted strings. -/
def Scan.braces : Scan → List Char → ℤ
  | _, [] => 0
  | s, c :: cs => (if s = outside then braceStep c else 0) + (s.next c).braces cs

/-- The braces that are open behind a text. -/
abbrev openBraces (cs : List Char) : ℤ :=
  outside.braces cs

theorem Scan.braces_append (s : Scan) (cs ds : List Char) :
    s.braces (cs ++ ds) = s.braces cs + (s.after cs).braces ds := by
  induction cs generalizing s with
  | nil => exact (Int.zero_add _).symm
  | cons c cs ih =>
    have hafter : s.after (c :: cs) = (s.next c).after cs := rfl
    rw [List.cons_append, braces, braces, ih, hafter, Int.add_assoc]

theorem openBraces_append (h : outside.after cs = outside) (ds : List Char) :
    openBraces (cs ++ ds) = openBraces cs + openBraces ds := by
  rw [openBraces, braces_append, h]

theorem Scan.braces_eq_zero (s : Scan) (h : ∀ c ∈ cs, braceStep c = 0) : s.braces cs = 0 := by
  induction cs generalizing s with
  | nil => rfl
  | cons c cs ih =>
    rw [braces, h c List.mem_cons_self, ite_self, ih _ fun d hd => h d (List.mem_cons_of_mem c hd), Int.add_zero]

/-- No character of the text stands outside of quoted strings. -/
def Scan.hides : Scan → List Char → Bool
  | _, [] => true
  | s, c :: cs => s != outside && (s.next c).hides cs

theorem Scan.hides_append (s : Scan) (cs ds : List Char) :
    s.hides (cs ++ ds) = (s.hides cs && (s.after cs).hides ds) := by
  induction cs generalizing s with
  | nil => rfl
  | cons c cs ih =>
    have hafter : s.after (c :: cs) = (s.next c).after cs := rfl
    rw [List.cons_append, hides, hides, ih, hafter, Bool.and_assoc]

theorem Scan.braces_of_hides (h : s.hides cs = true) : s.braces cs = 0 := by
  induction cs generalizing s with
  | nil => rfl
  | cons c cs ih =>
    obtain ⟨hs, hrest⟩ := Bool.and_eq_true_iff.1 h
    rw [braces, if_neg (by simpa using hs), ih hrest, Int.add_zero]

theorem Scan.hides_of_next (hs : s ≠ outside) (h : ∀ c ∈ cs, s.next c = s) : s.hides cs = true := by
  induction cs with
  | nil => rfl
  | cons c cs ih =>
    rw [hides, h c List.mem_cons_self, ih fun d hd => h d (List.mem_cons_of_mem c hd)]
    simpa using hs

/-! ### Quoted strings -/

theorem quoted_hides_number (n : Nat) : quoted.hides ('\\' :: natDigits n) = true := by
  have hdigits := digits_natDigits n
  obtain ⟨d, ds, hds⟩ := List.exists_cons_of_ne_nil (natDigits_ne_nil n)
  rw [hds] at hdigits ⊢
  change quoted.hides ds = true
  exact hides_of_next (by decide) fun c hc => quoted_next_of_isDigit (hdigits c (List.mem_cons_of_mem d hc))

theorem quoted_hides_quoteChar (c : Char) : quoted.hides (quoteChar c) = true := by
  unfold quoteChar
  split
  · rfl
  · split
    · exact quoted_hides_number _
    · rfl

theorem quoted_hides_quoteByte (b : UInt8) : quoted.hides (quoteByte b) = true := by
  unfold quoteByte
  dsimp only
  split
  · rfl
  · split
    · exact quoted_hides_number _
    · rfl

/-- A quoted string hides everything behind its first quote. -/
theorem quoted_hides_quotes {α : Type} {f : α → List Char} (hafter : ∀ a, quoted.after (f a) = quoted)
    (h : ∀ a, quoted.hides (f a) = true) (l : List α) : quoted.hides (l.flatMap f ++ ['\x22']) = true := by
  induction l with
  | nil => rfl
  | cons a l ih => rw [List.flatMap_cons, List.append_assoc, hides_append, h, hafter, ih, Bool.and_self]

/-! ## Indented lines -/

/-- The line that begins here is indented for the given number of open braces: a closing brace is its first character
only one level less deep. -/
def IsIndented (indent : Nat) (depth : ℤ) (cs : List Char) : Prop :=
  ∃ (d : Nat) (c : Char) (rest : List Char), cs = List.replicate (indent * d) ' ' ++ c :: rest ∧ c ≠ ' ' ∧ c ≠ '\n' ∧
    (d : ℤ) = depth - if c = '\x7d' then 1 else 0

theorem IsIndented.append {indent : Nat} {d : ℤ} (h : IsIndented indent d cs) (ds : List Char) :
    IsIndented indent d (cs ++ ds) := by
  obtain ⟨k, c, rest, rfl, hc⟩ := h
  exact ⟨k, c, rest ++ ds, by rw [List.append_assoc, List.cons_append], hc⟩

/-- The text leads from `d` open braces to `e`, never out of the range from zero to `most`, and its lines are indented by
the braces around them. -/
structure Nests (indent : Nat) (most d e : ℤ) (cs : List Char) : Prop where
  closed : outside.after cs = outside
  leaves : d + openBraces cs = e
  within {before after : List Char} (h : cs = before ++ after) : 0 ≤ d + openBraces before ∧ d + openBraces before ≤ most
  indented {before after : List Char} (h : cs = before ++ '\n' :: after) : IsIndented indent (d + openBraces before) after

namespace Nests

variable {indent : Nat} {most d e f : ℤ}

theorem append (hc : Nests indent most d e cs) (hd : Nests indent most e f ds) : Nests indent most d f (cs ++ ds) where
  closed := by rw [after_append, hc.closed, hd.closed]
  leaves := by rw [openBraces_append hc.closed, ← Int.add_assoc, hc.leaves, hd.leaves]
  within {before after} h := by
    rcases List.append_eq_append_iff.1 h with ⟨middle, rfl, hds⟩ | ⟨middle, hcs, -⟩
    · rw [openBraces_append hc.closed, ← Int.add_assoc, hc.leaves]
      exact hd.within hds
    · exact hc.within hcs
  indented {before after} h := by
    rcases cons_of_append_eq h with ⟨middle, hcs, rfl⟩ | ⟨middle, rfl, hds⟩
    · exact (hc.indented hcs).append ds
    · rw [openBraces_append hc.closed, ← Int.add_assoc, hc.leaves]
      exact hd.indented hds

/-- A text on one line whose braces are all hidden. -/
theorem flat (hclosed : outside.after cs = outside) (hfeed : '\n' ∉ cs)
    (hbraces : ∀ before after, cs = before ++ after → openBraces before = 0) (hd : 0 ≤ d ∧ d ≤ most) :
    Nests indent most d d cs where
  closed := hclosed
  leaves := by rw [hbraces cs [] (List.append_nil cs).symm, Int.add_zero]
  within {before after} h := by
    rw [hbraces before after h, Int.add_zero]
    exact hd
  indented h := absurd (h ▸ by simp) hfeed

/-- A text outside of quoted strings without braces. -/
theorem unquoted (h : Unquoted cs) (hbraces : ∀ c ∈ cs, braceStep c = 0) (hd : 0 ≤ d ∧ d ≤ most) :
    Nests indent most d d cs := by
  refine flat (outside_after_unquoted h) (fun hc => absurd (h _ hc) (by decide)) (fun before after heq => ?_) hd
  exact outside.braces_eq_zero fun c hc => hbraces c (heq ▸ List.mem_append_left after hc)

theorem compact (h : Compact cs) (hd : 0 ≤ d ∧ d ≤ most) : Nests indent most d d cs := by
  refine unquoted h.unquoted (fun c hc => ?_) hd
  have hother : c ≠ '\x7b' ∧ c ≠ '\x7d' := by
    constructor <;> rintro rfl <;> exact absurd (h _ hc) (by decide)
  rw [braceStep, if_neg hother.1, if_neg hother.2]

theorem quoted {rest : List Char} (hclosed : outside.after ('\x22' :: rest) = outside)
    (hvisible : Visible ('\x22' :: rest)) (hhides : Scan.quoted.hides rest = true) (hd : 0 ≤ d ∧ d ≤ most) :
    Nests indent most d d ('\x22' :: rest) := by
  refine flat hclosed (fun hc => absurd (hvisible _ hc) (by decide)) (fun before after heq => ?_) hd
  cases before with
  | nil => rfl
  | cons c before =>
    obtain rfl := (List.cons.inj heq).1
    have hrest : rest = before ++ after := (List.cons.inj heq).2
    rw [hrest, hides_append] at hhides
    exact (Int.zero_add _).trans (braces_of_hides (Bool.and_eq_true_iff.1 hhides).1)

theorem quoteText (cs : List Char) (hd : 0 ≤ d ∧ d ≤ most) : Nests indent most d d (quoteText cs) :=
  quoted (outside_after_quoteText cs) (visible_quoteText cs)
    (quoted_hides_quotes quoted_after_quoteChar quoted_hides_quoteChar cs) hd

theorem quoteBytes (bs : List UInt8) (hd : 0 ≤ d ∧ d ≤ most) : Nests indent most d d (quoteBytes bs) := by
  have hclosed := outside_after_quoteBytes bs
  have hvisible := visible_quoteBytes bs
  rw [Inspect.quoteBytes] at hclosed hvisible ⊢
  cases hread : Text.Utf8.decode bs with
  | ok cs => exact quoteText cs hd
  | error m =>
    rw [hread] at hclosed hvisible
    exact quoted hclosed hvisible (quoted_hides_quotes quoted_after_quoteByte quoted_hides_quoteByte bs) hd

/-- A brace by itself. -/
theorem brace (hc : isUnquoted c = true) (hd : 0 ≤ d ∧ d ≤ most) (he : d + braceStep c = e) (hmost : 0 ≤ e ∧ e ≤ most) :
    Nests indent most d e [c] where
  closed := outside_after_unquoted (.cons hc .nil)
  leaves := by
    have hopen : openBraces [c] = braceStep c := Int.add_zero _
    rw [hopen, he]
  within {before after} h := by
    rcases List.append_eq_singleton_iff.1 h.symm with ⟨rfl, -⟩ | ⟨rfl, -⟩
    · simpa [braces] using hd
    · have hopen : openBraces [c] = braceStep c := Int.add_zero _
      rw [hopen, he]
      exact hmost
  indented {before after} h := by
    obtain ⟨-, hfeed⟩ | ⟨-, hfeed⟩ := List.append_eq_singleton_iff.1 h.symm
    · obtain rfl := (List.cons.inj hfeed).1
      exact absurd hc (by decide)
    · cases hfeed

theorem opening (hd : 0 ≤ d) (hmost : d < most) : Nests indent most d (d + 1) ['\x7b'] :=
  brace (by decide) ⟨hd, by omega⟩ rfl ⟨by omega, hmost⟩

theorem closing (hd : 0 ≤ d) (hmost : d < most) : Nests indent most (d + 1) d ['\x7d'] :=
  brace (by decide) ⟨by omega, hmost⟩ (Int.add_neg_cancel_right d 1) ⟨hd, by omega⟩

theorem replicate (n : Nat) (hd : 0 ≤ d ∧ d ≤ most) : Nests indent most d d (List.replicate n ' ') :=
  unquoted (.replicate (by decide) n) (fun _ hc => by rw [List.eq_of_mem_replicate hc]; decide) hd

/-- A line that is indented by the braces around it. -/
theorem line {rest : List Char} {k : Nat} (h : Nests indent most d e (c :: rest)) (hspace : c ≠ ' ') (hfeed : c ≠ '\n')
    (hk : (k : ℤ) = d - if c = '\x7d' then 1 else 0) :
    Nests indent most d e ('\n' :: (List.replicate (indent * k) ' ' ++ c :: rest)) := by
  have hd : 0 ≤ d ∧ d ≤ most := by
    simpa [openBraces, braces] using h.within (List.nil_append (c :: rest)).symm
  have hpadding : Nests indent most d d (List.replicate (indent * k) ' ') := replicate _ hd
  have hpadded := hpadding.append h
  -- a line feed changes neither the scan nor the open braces
  have hstep : ∀ cs, openBraces ('\n' :: cs) = openBraces cs := fun cs => Int.zero_add _
  constructor
  case closed => exact hpadded.closed
  case leaves => rw [hstep, hpadded.leaves]
  case within =>
    intro before after heq
    cases before with
    | nil => simpa [openBraces, braces] using hd
    | cons b before =>
      obtain ⟨rfl, hrest⟩ := List.cons.inj heq
      rw [hstep]
      exact hpadded.within hrest
  case indented =>
    intro before after heq
    cases before with
    | nil =>
      obtain ⟨-, rfl⟩ := List.cons.inj heq
      exact ⟨k, c, rest, rfl, hspace, hfeed, by rw [hk]; simp [openBraces, braces]⟩
    | cons b before =>
      obtain ⟨rfl, hrest⟩ := List.cons.inj heq
      rw [hstep]
      exact hpadded.indented hrest

end Nests

/-! ## Tables -/

/-- A text that can begin an indented line. -/
def Headed (cs : List Char) : Prop :=
  ∃ c rest, cs = c :: rest ∧ c ≠ ' ' ∧ c ≠ '\n' ∧ c ≠ '\x7d'

theorem Headed.append (h : Headed cs) (ds : List Char) : Headed (cs ++ ds) := by
  obtain ⟨c, rest, rfl, hc⟩ := h
  exact ⟨c, rest ++ ds, rfl, hc⟩

theorem Headed.compact (h : Compact cs) (hne : cs ≠ []) : Headed cs := by
  obtain ⟨c, rest, rfl⟩ := List.exists_cons_of_ne_nil hne
  have hc := h c List.mem_cons_self
  refine ⟨c, rest, rfl, ?_, ?_, ?_⟩ <;> rintro rfl <;> exact absurd hc (by decide)

theorem Headed.arrange (layout : Layout) (level : Nat) (scalars : Bool) (items : List (List Char)) :
    Headed (arrange layout level scalars items) := by
  obtain ⟨rest, hrest⟩ := List.head?_eq_some_iff.1 (head?_arrange layout level scalars items)
  exact ⟨_, rest, hrest, by decide⟩

/-- An item inside so many braces. -/
structure IsItem (indent : Nat) (most : ℤ) (level : Nat) (cs : List Char) : Prop where
  nests : Nests indent most level level cs
  headed : Headed cs

namespace Nests

variable {indent level : Nat} {most d : ℤ} {items : List (List Char)}

theorem separator (hd : 0 ≤ d ∧ d ≤ most) (h : cs.all (fun c => isUnquoted c && decide (braceStep c = 0)) = true) :
    Nests indent most d d cs := by
  have hall : ∀ c ∈ cs, isUnquoted c = true ∧ braceStep c = 0 := fun c hc => by
    simpa using List.all_eq_true.1 h c hc
  exact unquoted (fun c hc => (hall c hc).1) (fun c hc => (hall c hc).2) hd

theorem joinItems {sep : List Char} (hd : 0 ≤ d ∧ d ≤ most) (hsep : Nests indent most d d sep) :
    ∀ {items : List (List Char)}, (∀ t ∈ items, Nests indent most d d t) → Nests indent most d d (joinItems sep items)
  | [], _ => separator hd rfl
  | [t], h => h t List.mem_cons_self
  | t :: _ :: _, h =>
    ((h t List.mem_cons_self).append hsep).append (joinItems hd hsep fun u hu => h u (List.mem_cons_of_mem t hu))

theorem oneLine (hmost : (level : ℤ) < most) (h : ∀ t ∈ items, IsItem indent most (level + 1) t) :
    Nests indent most level level (oneLine items) := by
  have hd : 0 ≤ (level : ℤ) + 1 ∧ (level : ℤ) + 1 ≤ most := by omega
  have hcomma : Nests indent most (level + 1) (level + 1) [',', ' '] := separator hd (by decide)
  have hspace : Nests indent most (level + 1) (level + 1) [' '] := separator hd (by decide)
  have hitems := joinItems hd hcomma fun t ht => by simpa using (h t ht).nests
  have hbody := (hspace.append hitems).append hspace
  have hall := ((opening (by omega) hmost).append hbody).append (closing (by omega) hmost)
  simpa [Inspect.oneLine] using hall

/-- The lines of items: each one begins behind a line feed. -/
theorem itemLines {n : Nat} (hd : (n : ℤ) ≤ most) : ∀ {items : List (List Char)}, items ≠ [] →
    (∀ t ∈ items, IsItem indent most n t) →
    Nests indent most n n
      ('\n' :: Inspect.joinItems [',', '\n'] (items.map fun t => List.replicate (indent * n) ' ' ++ t))
  | [], hne, _ => absurd rfl hne
  | t :: ts, _, h => by
    obtain ⟨hnests, c, rest, rfl, hspace, hfeed, hclose⟩ := h t List.mem_cons_self
    have hline := hnests.line hspace hfeed (k := n) (by rw [if_neg hclose, Int.sub_zero])
    cases ts with
    | nil => exact hline
    | cons u us =>
      have hcomma : Nests indent most n n [','] := separator ⟨by omega, hd⟩ (by decide)
      have hrest := itemLines hd (List.cons_ne_nil u us) fun v hv => h v (List.mem_cons_of_mem _ hv)
      simpa [Inspect.joinItems] using (hline.append hcomma).append hrest

theorem manyLines (hmost : (level : ℤ) < most) (hne : items ≠ [])
    (h : ∀ t ∈ items, IsItem indent most (level + 1) t) : Nests indent most level level (manyLines indent level items) := by
  have hitems := itemLines (n := level + 1) (by omega) hne h
  have hopening : Nests indent most level (level + 1) ['\x7b'] := opening (Int.natCast_nonneg level) hmost
  have hbrace : Nests indent most (level + 1) level ['\x7d'] := closing (Int.natCast_nonneg level) hmost
  have hclosing := hbrace.line (k := level) (by decide) (by decide) (by simp)
  rw [Int.natCast_add, Int.cast_ofNat_Int] at hitems
  have hall := (hopening.append hitems).append hclosing
  simpa [Inspect.manyLines] using hall

theorem arrange (layout : Layout) (scalars : Bool) (hmost : (level : ℤ) < most) (hne : items ≠ [])
    (h : ∀ t ∈ items, IsItem layout.indent most (level + 1) t) :
    Nests layout.indent most level level (arrange layout level scalars items) := by
  unfold Inspect.arrange
  dsimp only
  split
  · exact oneLine hmost h
  · exact manyLines hmost hne h

end Nests

namespace IsItem

variable {indent level : Nat} {most : ℤ}

theorem append (h : IsItem indent most level cs) (hd : Nests indent most level level ds) :
    IsItem indent most level (cs ++ ds) :=
  ⟨h.nests.append hd, h.headed.append ds⟩

theorem compact (hd : (level : ℤ) ≤ most) (h : Compact cs) (hne : cs ≠ []) : IsItem indent most level cs :=
  ⟨.compact h ⟨by omega, hd⟩, .compact h hne⟩

theorem quoteText (hd : (level : ℤ) ≤ most) (cs : List Char) : IsItem indent most level (quoteText cs) :=
  ⟨.quoteText cs ⟨by omega, hd⟩, _, _, rfl, by decide⟩

theorem quoteBytes (hd : (level : ℤ) ≤ most) (bs : List UInt8) : IsItem indent most level (quoteBytes bs) := by
  refine ⟨.quoteBytes bs ⟨by omega, hd⟩, ?_⟩
  unfold Inspect.quoteBytes
  split <;> exact ⟨_, _, rfl, by decide⟩

theorem scalarText (hd : (level : ℤ) ≤ most) {v : Value} (h : v.isScalar = true) :
    IsItem indent most level (scalarText v) := by
  cases v with
  | nil => exact compact hd (.of_all (by decide)) (by decide)
  | bool b => cases b <;> exact compact hd (.of_all (by decide)) (by decide)
  | int i => exact compact hd (compact_intText i) (List.append_ne_nil_of_right_ne_nil _ (natDigits_ne_nil _))
  | float x => exact compact hd (compact_floatText x) (floatText_ne_nil x)
  | text s => exact quoteText hd _
  | bytes bs => exact quoteBytes hd bs
  | ref r => cases h

theorem signText (hd : (level : ℤ) ≤ most) (n : Nat) (r : Ref) : IsItem indent most level (signText n r) := by
  have hlabel : Compact ('<' :: r.kind.label.toList) := by
    cases r.kind <;> exact .of_all (by decide)
  have hnumber : Compact (natDigits n ++ ['>']) := .append (compact_natDigits n) (.of_all (by decide))
  have hspace : Nests indent most level level [' '] := .separator ⟨by omega, hd⟩ (by decide)
  have hall := ((compact hd hlabel (by simp)).append hspace).append (.compact hnumber ⟨by omega, hd⟩)
  simpa [Inspect.signText] using hall

theorem ellipsis (hd : (level : ℤ) < most) : IsItem indent most level ellipsis := by
  have hdots : Nests indent most (level + 1) (level + 1) ['.', '.', '.'] := .separator ⟨by omega, hd⟩ (by decide)
  exact ⟨((Nests.opening (by omega) hd).append hdots).append (.closing (by omega) hd), _, _, rfl, by decide⟩

theorem keyText (hd : (level : ℤ) ≤ most) {o : Outline} (h : IsItem indent most level cs) :
    IsItem indent most level (keyText o.bare? cs) := by
  cases hbare : o.bare? with
  | none =>
    have hclose : Nests indent most level level [']'] := .separator ⟨by omega, hd⟩ (by decide)
    exact ((compact hd (.of_all (by decide)) (List.cons_ne_nil '[' [])).append h.nests).append hclose
  | some b =>
    cases o with
    | scalar k =>
      refine compact hd (compact_bareKey? hbare) ?_
      rintro rfl
      exact absurd (isWord_bareKey? hbare) (by decide)
    | _ => cases hbare

theorem partText (hd : (level : ℤ) ≤ most) {layout : Layout} {number : Ref → Nat} {p : Part Outline}
    (h : ∀ o ∈ p.members, IsItem indent most level (o.text layout number level)) :
    IsItem indent most level (Outline.partText layout number level p) := by
  cases p with
  | positional o => exact h o (by simp [Part.members])
  | metatable o =>
    have hlabel : IsItem indent most level "<metatable> = ".toList :=
      ⟨.separator ⟨by omega, hd⟩ (by decide), _, _, rfl, by decide⟩
    exact hlabel.append (h o (by simp [Part.members])).nests
  | entry k v =>
    have hequals : Nests indent most level level " = ".toList := .separator ⟨by omega, hd⟩ (by decide)
    exact ((keyText hd (h k (by simp [Part.members]))).append hequals).append (h v (by simp [Part.members])).nests

end IsItem

/-! ## Outlines -/

/-- All that occurs in the outline inside `level` tables is inside less than `most` tables, and scalars are scalars. -/
def Outline.Fits (o : Outline) (most level : Nat) : Prop :=
  ∀ inner u, o.Has inner u → level + inner.length < most ∧ ∀ v, u = .scalar v → v.isScalar = true

theorem Outline.Fits.member {r : Ref} {parts : List (Part Outline)} {most level : Nat} {p : Part Outline} {o : Outline}
    (h : (table r parts).Fits most level) (hp : p ∈ parts) (ho : o ∈ p.members) : o.Fits most (level + 1) := by
  intro inner u hu
  obtain ⟨hlt, hscalar⟩ := h _ u (.part hp ho hu)
  rw [List.length_append, List.length_singleton] at hlt
  exact ⟨by omega, hscalar⟩

/-- The text of an outline is an item inside the tables around it. -/
theorem Outline.isItem_text (layout : Layout) (number : Ref → Nat) (most : Nat) (o : Outline) :
    ∀ {level : Nat}, o.Fits most level → IsItem layout.indent most level (o.text layout number level) := by
  induction o using Outline.ind with
  | scalar v =>
    intro level h
    obtain ⟨hlt, hscalar⟩ := h [] _ .self
    exact .scalarText (by simp at hlt; omega) (hscalar v rfl)
  | sign r =>
    intro level h
    have hlt := (h [] _ .self).1
    exact .signText (by simp at hlt; omega) _ r
  | elided r =>
    intro level h
    have hlt := (h [] _ .self).1
    exact .ellipsis (by simp at hlt; omega)
  | table r parts ih =>
    intro level h
    have hlt : (level : ℤ) < most := by
      have hlt := (h [] _ .self).1
      simp at hlt
      omega
    by_cases hempty : parts = []
    · rw [hempty]
      exact ⟨(Nests.opening (by omega) hlt).append (.closing (by omega) hlt), _, _, rfl, by decide⟩
    · rw [text_table layout number level r parts hempty]
      refine ⟨.arrange layout _ hlt (by simpa using hempty) fun t ht => ?_, .arrange layout level _ _⟩
      obtain ⟨p, hp, rfl⟩ := List.mem_map.1 ht
      exact .partText (by omega) fun o ho => ih p hp o ho (h.member hp ho)

/-! ## Shown values -/

section Outlines

variable {maxDepth : Option Nat} {store : Store} {room : Nat} {path : List Nat} {v : Value} {inner : List Nat}

/-- Scalars in the outline of a value are scalars. -/
theorem Outline.Has.isScalar {w : Value}
    (h : (outline maxDepth store room path v).Has inner (.scalar w)) : w.isScalar = true := by
  obtain ⟨n, -, heq⟩ := h.eq_outline rfl
  have hscalar := congrArg Outline.isScalar heq
  rw [isScalar_outline] at hscalar
  exact hscalar.symm

theorem outline_fits (maxDepth : Option Nat) (store : Store) (v : Value) :
    (outline maxDepth store deepest [] v).Fits (depthLimit maxDepth + 1) 0 := by
  intro inner u h
  have hle := h.length_le
  refine ⟨by omega, ?_⟩
  rintro w rfl
  exact h.isScalar

end Outlines

/-- The text of a value is an item outside of tables, and nests no deeper than its depth limit allows. -/
theorem isItem_inspect (layout : Layout) (store : Store) (v : Value) :
    IsItem layout.indent (depthLimit layout.maxDepth + 1 : Nat) 0 (inspect layout store v).toList := by
  rw [inspect_eq, String.toList_ofList]
  exact Outline.isItem_text layout _ _ _ (outline_fits layout.maxDepth store v)

/-- How far the first line of a text is indented. -/
theorem IsIndented.line {indent : Nat} {d : ℤ} {line : List Char} {behind : List (List Char)}
    (h : IsIndented indent d (Text.joinWithChar '\n' (line :: behind))) : IsIndented indent d line := by
  cases behind with
  | nil => exact h
  | cons next behind =>
    obtain ⟨k, c, rest, heq, hspace, hfeed, hk⟩ := h
    -- the first character behind the spaces is no line feed, so that the line feed stands behind it
    have hno : '\n' ∉ List.replicate (indent * k) ' ' ++ [c] := by
      simp [List.mem_replicate, Ne.symm hfeed]
    have hsplit : line ++ '\n' :: Text.joinWithChar '\n' (next :: behind) =
        (List.replicate (indent * k) ' ' ++ [c]) ++ rest := by
      rw [List.append_assoc]
      exact heq
    rcases List.append_eq_append_iff.1 hsplit with ⟨middle, hline, hmiddle⟩ | ⟨middle, rfl, -⟩
    · cases middle with
      | nil =>
        rw [List.append_nil] at hline
        exact ⟨k, c, [], hline.symm, hspace, hfeed, hk⟩
      | cons b middle =>
        obtain ⟨rfl, -⟩ := List.cons.inj hmiddle
        exact absurd (hline ▸ by simp) hno
    · exact ⟨k, c, middle, by simp, hspace, hfeed, hk⟩

/-- Each line of the text of a value is indented by the braces that are open around it, and all braces outside of quoted
strings are balanced. -/
theorem inspect_nesting (layout : Layout) (store : Store) (v : Value) :
    let text := (inspect layout store v).toList
    (∀ before line behind, Text.splitAtChar '\n' text = before ++ line :: behind →
      IsIndented layout.indent (openBraces (Text.joinWithChar '\n' before)) line) ∧
      (∀ before after, text = before ++ after → 0 ≤ openBraces before) ∧ openBraces text = 0 := by
  intro text
  obtain ⟨hnests, hheaded⟩ := isItem_inspect layout store v
  refine ⟨fun before line behind hsplit => ?_, fun before after heq => ?_, ?_⟩
  · have htext : text = Text.joinWithChar '\n' (before ++ line :: behind) := by
      rw [← hsplit, Text.joinWithChar_splitAtChar]
    cases before with
    | nil =>
      obtain ⟨c, rest, hc, hspace, hfeed, hclose⟩ := hheaded
      have hfirst : IsIndented layout.indent 0 text := ⟨0, c, rest, hc, hspace, hfeed, by simp [hclose]⟩
      exact .line (htext ▸ hfirst)
    | cons first before =>
      rw [Text.joinWithChar_append '\n' (List.cons_ne_nil _ _) (List.cons_ne_nil _ _)] at htext
      simpa using (hnests.indented htext).line
  · simpa using (hnests.within heq).1
  · simpa using hnests.leaves

end Scratchpad.Inspect
