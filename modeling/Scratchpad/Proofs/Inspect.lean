import Scratchpad.Proofs.Inspect.Outline
import Scratchpad.Proofs.Lua.Name
import Scratchpad.Proofs.Number.Numeral

/-!
# The characters of shown values

A value is shown without controls: quoted strings escape them, and numbers, names and signs need no quotes
(`Unquoted`), numbers and names no spaces and braces either (`Compact`). Only a table with an item a line holds line
feeds. A text is put together from few kinds of pieces (`Composed`), and a property that these have and keep when they
are put together is one of every text (`Composed.text`). Main statement: every character of a shown value is a line feed
or visible (`inspect_laid`).
-/

namespace Scratchpad

open Text

/-- A character that is no control. -/
def isVisible (c : Char) : Bool :=
  32 ≤ c.toNat && c.toNat != 127

/-- A character that may stand outside of quoted strings. -/
def isUnquoted (c : Char) : Bool :=
  isVisible c && c != '\x22'

abbrev Visible : List Char → Prop :=
  Only isVisible

abbrev Unquoted : List Char → Prop :=
  Only isUnquoted

theorem isVisible_of_isUnquoted {c : Char} (h : isUnquoted c = true) : isVisible c = true :=
  (Bool.and_eq_true_iff.1 h).1

theorem isUnquoted_iff {c : Char} : isUnquoted c = true ↔ 32 ≤ c.toNat ∧ c.toNat ≠ 127 ∧ c ≠ '\x22' := by
  simp [isUnquoted, isVisible, and_assoc]

/-- A character that is neither a space nor a brace and may stand outside of quoted strings. -/
def isCompact (c : Char) : Bool :=
  isUnquoted c && !([' ', '\x7b', '\x7d'].contains c)

abbrev Compact : List Char → Prop :=
  Only isCompact

theorem isUnquoted_of_isCompact {c : Char} (h : isCompact c = true) : isUnquoted c = true :=
  (Bool.and_eq_true_iff.1 h).1

theorem Compact.unquoted {cs : List Char} (h : Compact cs) : Unquoted cs :=
  h.mono fun _ => isUnquoted_of_isCompact

/-- Letters, digits and the underscore are compact. -/
theorem isCompact_of_isNameRest {c : Char} (h : Lua.isNameRest c = true) : isCompact c = true := by
  have hquote : c ≠ '\x22' := by
    rintro rfl
    revert h
    decide
  have hbounds : 48 ≤ c.toNat ∧ c.toNat ≤ 122 := by
    delta Lua.isNameRest Char.isAlphanum Char.isAlpha Char.isUpper Char.isLower Char.isDigit at h
    simp only [Bool.or_eq_true, Bool.and_eq_true, decide_eq_true_eq, beq_iff_eq, ge_iff_le,
      UInt32.le_iff_toNat_le] at h
    rcases h with ((⟨h, h'⟩ | ⟨h, h'⟩) | ⟨h, h'⟩) | rfl
    · exact ⟨Nat.le_trans (by decide) h, Nat.le_trans h' (by decide)⟩
    · exact ⟨Nat.le_trans (by decide) h, Nat.le_trans h' (by decide)⟩
    · exact ⟨h, Nat.le_trans h' (by decide)⟩
    · decide
  have hother : c ≠ ' ' ∧ c ≠ '\x7b' ∧ c ≠ '\x7d' := by
    refine ⟨?_, ?_, ?_⟩ <;> rintro rfl <;> exact absurd hbounds (by decide)
  refine Bool.and_eq_true_iff.2 ⟨isUnquoted_iff.2 ⟨by omega, by omega, hquote⟩, ?_⟩
  simpa using hother

theorem isCompact_of_isNumberChar {c : Char} (h : isNumberChar c = true) : isCompact c = true := by
  rcases Bool.or_eq_true_iff.1 h with hdigit | hother
  · exact isCompact_of_isNameRest (by simp [Lua.isNameRest, Char.isAlphanum, hdigit])
  · have hall : Compact ['-', '+', '.', 'e', 'i', 'n', 'f', 'a'] := .of_all (by decide)
    exact hall c (by simpa using hother)

theorem compact_natDigits (n : Nat) : Compact (natDigits n) :=
  (digits_natDigits n).mono fun _ hc => isCompact_of_isNumberChar (isNumberChar_of_isDigit hc)

theorem compact_intText (i : Int) : Compact (intText i) :=
  (isNumberChar_intText i).mono fun _ => isCompact_of_isNumberChar

theorem compact_floatText (x : Binary64) : Compact (floatText x) :=
  (isNumberChar_floatText x).mono fun _ => isCompact_of_isNumberChar

/-! ## Scalars -/

namespace Inspect

open Lua

variable {cs : List Char}

theorem isVisible_of_escapeLetter? {c l : Char} (h : escapeLetter? c = some l) : isVisible l = true := by
  unfold escapeLetter? at h
  split_ifs at h <;> cases h <;> decide

theorem visible_natDigits (n : Nat) : Visible (natDigits n) :=
  (compact_natDigits n).unquoted.mono fun _ => isVisible_of_isUnquoted

theorem visible_quoteChar (c : Char) : Visible (quoteChar c) := by
  unfold quoteChar
  split
  · rename_i l hl
    exact .cons (by decide) (.cons (isVisible_of_escapeLetter? hl) .nil)
  · split
    · exact .cons (by decide) (visible_natDigits _)
    · rename_i hc
      exact .cons (by simpa [isVisible] using not_or.1 hc) .nil

theorem visible_quoteByte (b : UInt8) : Visible (quoteByte b) := by
  unfold quoteByte
  dsimp only
  split
  · rename_i l hl
    exact .cons (by decide) (.cons (isVisible_of_escapeLetter? hl) .nil)
  · split
    · exact .cons (by decide) (visible_natDigits _)
    · rename_i hb
      obtain ⟨hlow, hhigh⟩ := not_or.1 hb
      have hle : 32 ≤ b.toNat := UInt8.le_iff_toNat_le.1 (UInt8.not_lt.1 hlow)
      have hlt : b.toNat < 127 := UInt8.lt_iff_toNat_lt.1 (UInt8.not_le.1 hhigh)
      have hvalid : b.toNat.isValidChar := .inl (Nat.lt_of_lt_of_le b.toNat_lt (by decide))
      have hchar : (Char.ofNat b.toNat).toNat = b.toNat := by
        rw [Char.ofNat, dif_pos hvalid]
        rfl
      exact .cons (by simp [isVisible, hchar]; omega) .nil

theorem visible_quoteText (cs : List Char) : Visible (quoteText cs) := by
  refine .append (.cons (by decide) fun c hc => ?_) (.cons (by decide) .nil)
  obtain ⟨d, -, hd⟩ := List.mem_flatMap.1 hc
  exact visible_quoteChar d c hd

theorem visible_quoteBytes (bs : List UInt8) : Visible (quoteBytes bs) := by
  unfold quoteBytes
  split
  · exact visible_quoteText _
  · refine .append (.cons (by decide) fun c hc => ?_) (.cons (by decide) .nil)
    obtain ⟨b, -, hb⟩ := List.mem_flatMap.1 hc
    exact visible_quoteByte b c hb

/-- A key without brackets is a word. -/
theorem isWord_bareKey? {k : Value} (h : bareKey? k = some cs) : isWord cs = true := by
  unfold bareKey? at h
  dsimp only at h
  split at h
  · split at h
    · rename_i hname
      obtain rfl := Option.some.inj h
      exact (Bool.and_eq_true_iff.1 hname).1
    · cases h
  · cases h

theorem compact_bareKey? {k : Value} (h : bareKey? k = some cs) : Compact cs :=
  fun c hc => isCompact_of_isNameRest (mem_isWord (isWord_bareKey? h) c hc)

theorem unquoted_signText (n : Nat) (r : Ref) : Unquoted (signText n r) := by
  have hlabel : Unquoted r.kind.label.toList := by
    cases r.kind <;> exact .of_all (by decide)
  exact .append (.append (.cons (by decide) hlabel) (.cons (by decide) (compact_natDigits _).unquoted)) (.of_all (by decide))

/-! ## Texts -/

/-- The pieces of texts have the property, and texts put together from such with the property have it. -/
structure Composed (P : List Char → Prop) : Prop where
  append {cs ds : List Char} (hc : P cs) (hd : P ds) : P (cs ++ ds)
  unquoted {cs : List Char} (h : Unquoted cs) : P cs
  quoteText (cs : List Char) : P (quoteText cs)
  quoteBytes (bs : List UInt8) : P (quoteBytes bs)
  /-- The end of the line that opens a table. -/
  opening : P ['\x7b', '\n']
  /-- The end of the line of an item with another one behind it. -/
  comma : P [',', '\n']
  /-- The end of the line of the last item, and the line that closes the table. -/
  closing (n : Nat) : P ('\n' :: List.replicate n ' ' ++ ['\x7d'])

namespace Composed

variable {P : List Char → Prop} {items : List (List Char)} {key? : Option (List Char)}

theorem scalarText (hP : Composed P) (v : Value) : P (scalarText v) := by
  cases v with
  | nil => exact hP.unquoted (.of_all (by decide))
  | bool b => cases b <;> exact hP.unquoted (.of_all (by decide))
  | int i => exact hP.unquoted (compact_intText i).unquoted
  | float x => exact hP.unquoted (compact_floatText x).unquoted
  | text s => exact hP.quoteText _
  | bytes bs => exact hP.quoteBytes bs
  | ref r => exact hP.unquoted .nil

theorem joinItems (hP : Composed P) {sep : List Char} (hsep : P sep) : ∀ {items : List (List Char)},
    (∀ t ∈ items, P t) → P (joinItems sep items)
  | [], _ => hP.unquoted .nil
  | [t], h => h t List.mem_cons_self
  | t :: _ :: _, h =>
    hP.append (hP.append (h t List.mem_cons_self) hsep) (hP.joinItems hsep fun v hv => h v (List.mem_cons_of_mem t hv))

theorem oneLine (hP : Composed P) (h : ∀ t ∈ items, P t) : P (oneLine items) := by
  have hopening : P ['\x7b', ' '] := hP.unquoted (.of_all (by decide))
  have hcomma : P [',', ' '] := hP.unquoted (.of_all (by decide))
  exact hP.append (hP.append hopening (hP.joinItems hcomma h)) (hP.unquoted (.of_all (by decide)))

theorem manyLines (hP : Composed P) (indent level : Nat) (h : ∀ t ∈ items, P t) :
    P (manyLines indent level items) := by
  have hitems : ∀ t ∈ items.map fun t => List.replicate (indent * (level + 1)) ' ' ++ t, P t := by
    intro t ht
    obtain ⟨u, hu, rfl⟩ := List.mem_map.1 ht
    exact hP.append (hP.unquoted (.replicate (by decide) _)) (h u hu)
  have hparts := hP.append (hP.append hP.opening (hP.joinItems hP.comma hitems)) (hP.closing (indent * level))
  simpa [Inspect.manyLines] using hparts

theorem arrange (hP : Composed P) (layout : Layout) (level : Nat) (scalars : Bool) (h : ∀ t ∈ items, P t) :
    P (arrange layout level scalars items) := by
  unfold Inspect.arrange
  dsimp only
  split
  · exact hP.oneLine h
  · exact hP.manyLines _ _ h

theorem keyText (hP : Composed P) {t : List Char} (hkey : ∀ k ∈ key?, P k) (ht : P t) : P (keyText key? t) := by
  cases key? with
  | none =>
    have hbracket : P ['['] := hP.unquoted (.of_all (by decide))
    exact hP.append (hP.append hbracket ht) (hP.unquoted (.of_all (by decide)))
  | some k => exact hkey k rfl

theorem bare? (hP : Composed P) {o : Outline} : ∀ b ∈ o.bare?, P b := by
  intro b hb
  cases o with
  | scalar k => exact hP.unquoted (compact_bareKey? hb).unquoted
  | _ => cases hb

theorem partText (hP : Composed P) (layout : Layout) (number : Ref → Nat) (level : Nat) {p : Part Outline}
    (h : ∀ o ∈ p.members, P (o.text layout number level)) : P (Outline.partText layout number level p) := by
  cases p with
  | positional o => exact h o (by simp [Part.members])
  | metatable o => exact hP.append (hP.unquoted (.of_all (by decide))) (h o (by simp [Part.members]))
  | entry k v =>
    exact hP.append (hP.append (hP.keyText hP.bare? (h k (by simp [Part.members]))) (hP.unquoted (.of_all (by decide))))
      (h v (by simp [Part.members]))

/-- The texts of all outlines have the property. -/
theorem text (hP : Composed P) (layout : Layout) (number : Ref → Nat) (o : Outline) :
    ∀ level, P (o.text layout number level) := by
  induction o using Outline.ind with
  | scalar v => exact fun _ => hP.scalarText v
  | sign r => exact fun _ => hP.unquoted (unquoted_signText _ r)
  | elided r =>
    have hellipsis : P ellipsis := hP.unquoted (.of_all (by decide))
    exact fun _ => hellipsis
  | table r parts ih =>
    intro level
    by_cases hempty : parts = []
    · have hbraces : P ['\x7b', '\x7d'] := hP.unquoted (.of_all (by decide))
      rw [hempty]
      exact hbraces
    · rw [Outline.text_table layout number level r parts hempty]
      refine hP.arrange layout level _ fun t ht => ?_
      obtain ⟨p, hp, rfl⟩ := List.mem_map.1 ht
      exact hP.partText layout number (level + 1) fun o ho => ih p hp o ho (level + 1)

theorem inspect (hP : Composed P) (layout : Layout) (store : Store) (v : Value) :
    P (inspect layout store v).toList := by
  rw [inspect_eq, String.toList_ofList]
  exact hP.text layout _ _ 0

end Composed

theorem composed_laid : Composed fun cs => ∀ c ∈ cs, c = '\n' ∨ isVisible c = true where
  append hc hd := List.forall_mem_append.2 ⟨hc, hd⟩
  unquoted h c hc := .inr (isVisible_of_isUnquoted (h c hc))
  quoteText cs c hc := .inr (visible_quoteText cs c hc)
  quoteBytes bs c hc := .inr (visible_quoteBytes bs c hc)
  opening := List.forall_mem_cons.2 ⟨.inr rfl, List.forall_mem_singleton.2 (.inl rfl)⟩
  comma := List.forall_mem_cons.2 ⟨.inr rfl, List.forall_mem_singleton.2 (.inl rfl)⟩
  closing n c hc := by
    rcases List.mem_cons.1 hc with rfl | hc
    · exact .inl rfl
    · have hpadded : Visible (List.replicate n ' ' ++ ['\x7d']) := .append (.replicate (by decide) n) (.of_all (by decide))
      exact .inr (hpadded c hc)

/-- Every character of a shown value is a line feed or visible. -/
theorem inspect_laid (layout : Layout) (store : Store) (v : Value) :
    ∀ c ∈ (inspect layout store v).toList, c = '\n' ∨ isVisible c = true :=
  composed_laid.inspect layout store v

end Inspect

end Scratchpad
