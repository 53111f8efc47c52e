import Mathlib.Algebra.Group.Nat.Defs
import Scratchpad.Number.Text
import Scratchpad.Proofs.Text.Characters

/-!
# Decimal numerals

A numeral without sign has digits in front of a point, digits behind it, and an exponent; the last two may be missing
(`Numeral`). A reader takes numerals apart (`Numeral.read?`) and is the inverse of their texts (`Numeral.read?_text`).
Main statements: the text of an integer is the numeral of its digits, and that of a finite floating point number is a
numeral with a point or an exponent (`floatText_eq`).
-/

namespace Scratchpad

abbrev Digits : List Char → Prop :=
  Only Char.isDigit

theorem digits_natDigits (n : Nat) : Digits (natDigits n) :=
  fun _ hc => Nat.isDigit_of_mem_toDigits (by decide) (by decide) hc

theorem natDigits_ne_nil (n : Nat) : natDigits n ≠ [] :=
  Nat.toDigits_ne_nil

/-- The number that digits stand for. -/
def readDigits (ds : List Char) : Nat :=
  Nat.ofDigitChars 10 ds 0

@[simp]
theorem readDigits_natDigits (n : Nat) : readDigits (natDigits n) = n :=
  Nat.ofDigitChars_toDigits (by decide) (by decide)

@[simp]
theorem readDigits_replicate_append (n : Nat) (ds : List Char) :
    readDigits (List.replicate n '0' ++ ds) = readDigits ds := by
  rw [readDigits, Nat.ofDigitChars_append, Nat.ofDigitChars_replicate_zero, Nat.mul_zero, readDigits]

theorem readDigits_append_replicate (ds : List Char) (n : Nat) :
    readDigits (ds ++ List.replicate n '0') = readDigits ds * 10 ^ n := by
  rw [readDigits, Nat.ofDigitChars_append, Nat.ofDigitChars_replicate_zero, Nat.mul_comm, readDigits]

namespace Binary64

variable {ds : List Char}

/-! ## Parts of layouts -/

theorem digits_padZeros (width : Nat) (h : Digits ds) : Digits (padZeros width ds) :=
  .append (.replicate (by decide) _) h

@[simp]
theorem readDigits_padZeros (width : Nat) (ds : List Char) : readDigits (padZeros width ds) = readDigits ds :=
  readDigits_replicate_append _ ds

theorem padZeros_ne_nil (width : Nat) (h : ds ≠ []) : padZeros width ds ≠ [] :=
  List.append_ne_nil_of_right_ne_nil _ h

theorem length_padZeros {width : Nat} (h : ds.length ≤ width) : (padZeros width ds).length = width := by
  rw [padZeros, List.length_append, List.length_replicate]
  omega

/-- Zeros at the end are trimmed, and nothing else. -/
theorem exists_trimZeros (ds : List Char) : ∃ n, ds = trimZeros ds ++ List.replicate n '0' := by
  refine ⟨(ds.reverse.takeWhile (· == '0')).length, ?_⟩
  have hzeros : (ds.reverse.takeWhile (· == '0')).reverse =
      List.replicate (ds.reverse.takeWhile (· == '0')).length '0' := by
    rw [List.eq_replicate_iff]
    refine ⟨List.length_reverse, fun c hc => ?_⟩
    have hzero := List.all_eq_true.1 List.all_takeWhile c (List.mem_reverse.1 hc)
    simpa using hzero
  rw [← hzeros, trimZeros, ← List.reverse_append, List.takeWhile_append_dropWhile, List.reverse_reverse]

theorem digits_trimZeros (h : Digits ds) : Digits (trimZeros ds) := by
  obtain ⟨n, hn⟩ := exists_trimZeros ds
  rw [hn] at h
  exact fun c hc => h c (List.mem_append_left _ hc)

/-! ## Numerals -/

/-- A decimal numeral without sign. -/
structure Numeral where
  /-- The digits in front of the point. -/
  whole : List Char
  /-- The digits behind the point. -/
  fraction : List Char
  exponent? : Option Int
  deriving DecidableEq, Repr

namespace Numeral

def text (n : Numeral) : List Char :=
  n.whole ++ afterPoint n.fraction ++ n.exponent?.elim [] exponentText

/-- The decimal that the numeral stands for. -/
def decimal (n : Numeral) : Decimal :=
  ⟨readDigits (n.whole ++ n.fraction), n.exponent?.getD 0 - n.fraction.length⟩

structure Proper (n : Numeral) : Prop where
  whole : Digits n.whole
  fraction : Digits n.fraction
  ne_nil : n.whole ≠ []

/-! ### Reading -/

/-- The digits behind a point, if there is one, and what follows. -/
def readFraction? : List Char → Option (List Char × List Char)
  | '.' :: cs => if cs.takeWhile Char.isDigit = [] then none else some (cs.takeWhile Char.isDigit, cs.dropWhile Char.isDigit)
  | cs => some ([], cs)

/-- The exponent at the end, if there is one. -/
def readExponent? : List Char → Option (Option Int)
  | [] => some none
  | 'e' :: sign :: ds =>
    if ds = [] ∨ ds.all Char.isDigit = false then none
    else if sign = '-' then some (some (-(readDigits ds : Int)))
    else if sign = '+' then some (some (readDigits ds))
    else none
  | _ => none

/-- Reads a numeral: digits, a point and digits or nothing, an exponent or nothing. -/
def read? (cs : List Char) : Option Numeral :=
  if cs.takeWhile Char.isDigit = [] then none
  else do
    let (fraction, rest) ← readFraction? (cs.dropWhile Char.isDigit)
    let exponent? ← readExponent? rest
    return ⟨cs.takeWhile Char.isDigit, fraction, exponent?⟩

/-- Reads a numeral behind a minus or nothing: whether there is a minus, and the numeral. -/
def readSigned? : List Char → Option (Bool × Numeral)
  | '-' :: cs => (read? cs).map (true, ·)
  | cs => (read? cs).map (false, ·)

theorem readExponent?_exponentText (e : Int) : readExponent? (exponentText e) = some (some e) := by
  have hdigits : Digits (padZeros 2 (natDigits e.natAbs)) := digits_padZeros 2 (digits_natDigits _)
  have hnot : ¬ (padZeros 2 (natDigits e.natAbs) = [] ∨ (padZeros 2 (natDigits e.natAbs)).all Char.isDigit = false) := by
    rintro (h | h)
    · exact padZeros_ne_nil 2 (natDigits_ne_nil _) h
    · rw [List.all_eq_true.2 hdigits] at h
      cases h
  rw [exponentText]
  split
  · rw [readExponent?, if_neg hnot, if_pos rfl, readDigits_padZeros, readDigits_natDigits]
    congr 2
    omega
  · rw [readExponent?, if_neg hnot, if_neg (by decide), if_pos rfl, readDigits_padZeros, readDigits_natDigits]
    congr 2
    omega

theorem readExponent?_elim (e? : Option Int) : readExponent? (e?.elim [] exponentText) = some e? := by
  cases e? with
  | none => rfl
  | some e => exact readExponent?_exponentText e

/-- What stands behind digits begins with no digit. -/
theorem not_isDigit_head_exponent (e? : Option Int) : ∀ c ∈ (e?.elim [] exponentText).head?, c.isDigit = false := by
  intro c hc
  cases e? with
  | none => cases hc
  | some e =>
    obtain rfl : 'e' = c := Option.some.inj hc
    rfl

theorem not_isDigit_head_fraction (fraction : List Char) (e? : Option Int) :
    ∀ c ∈ (afterPoint fraction ++ e?.elim [] exponentText).head?, c.isDigit = false := by
  unfold afterPoint
  split
  · exact not_isDigit_head_exponent e?
  · intro c hc
    obtain rfl : '.' = c := Option.some.inj hc
    rfl

theorem readFraction?_eq {fraction : List Char} (h : Digits fraction) (e? : Option Int) :
    readFraction? (afterPoint fraction ++ e?.elim [] exponentText) = some (fraction, e?.elim [] exponentText) := by
  have hhead := not_isDigit_head_exponent e?
  unfold afterPoint
  split
  · rename_i hempty
    obtain rfl : fraction = [] := by simpa using hempty
    cases e? <;> rfl
  · rename_i hne
    have htake := h.takeWhile_append hhead
    rw [List.cons_append, readFraction?, htake, h.dropWhile_append hhead, if_neg (by simpa using hne)]

/-- A numeral is read back from its text. -/
theorem read?_text {n : Numeral} (h : n.Proper) : read? n.text = some n := by
  have hhead := not_isDigit_head_fraction n.fraction n.exponent?
  have htext : n.text = n.whole ++ (afterPoint n.fraction ++ n.exponent?.elim [] exponentText) := List.append_assoc _ _ _
  rw [read?, htext, h.whole.takeWhile_append hhead, h.whole.dropWhile_append hhead, if_neg h.ne_nil,
    readFraction?_eq h.fraction]
  change (readExponent? _).bind _ = _
  rw [readExponent?_elim]
  rfl

theorem readSigned?_text {n : Numeral} (h : n.Proper) (negative : Bool) :
    readSigned? ((if negative then ['-'] else []) ++ n.text) = some (negative, n) := by
  cases negative with
  | true =>
    change (read? n.text).map (true, ·) = _
    rw [read?_text h]
    rfl
  | false =>
    obtain ⟨c, cs, hwhole⟩ := List.exists_cons_of_ne_nil h.ne_nil
    have hc : c.isDigit = true := h.whole c (hwhole ▸ List.mem_cons_self)
    have htext : n.text = c :: (cs ++ afterPoint n.fraction ++ n.exponent?.elim [] exponentText) := by
      rw [text, hwhole]
      rfl
    have hread := read?_text h
    rw [htext] at hread
    have hminus : c ≠ '-' := by
      rintro rfl
      cases hc
    rw [if_neg (by decide), List.nil_append, htext, readSigned?, hread]
    · rfl
    · rintro ds heq
      exact hminus (List.cons.inj heq).1

end Numeral

/-! ## The numerals of numbers -/

theorem digits_positional (h : Digits ds) (e : Int) : Digits (positional ds e).1 ∧ Digits (positional ds e).2 := by
  unfold positional
  split
  · exact ⟨.cons (by decide) .nil, .append (.replicate (by decide) _) h⟩
  · exact ⟨.append (h.take _) (.replicate (by decide) _), h.drop _⟩

theorem positional_ne_nil (ds : List Char) (e : Int) : (positional ds e).1 ≠ [] := by
  have hlength : 0 < (positional ds e).1.length := by
    unfold positional
    split
    · exact Nat.one_pos
    · simp only [List.length_append, List.length_take, List.length_replicate]
      omega
  exact List.ne_nil_of_length_pos hlength

/-- The digits to which a number is rounded, and the exponent of the first one. -/
def leading (x : Binary64) (count : Nat) : List Char × Int :=
  let t := x.significant count
  (padZeros count (natDigits t.digits), if t.digits = 0 then 0 else t.exponent + count - 1)

theorem digits_leading (x : Binary64) (count : Nat) : Digits (x.leading count).1 :=
  digits_padZeros count (digits_natDigits _)

theorem leading_ne_nil (x : Binary64) (count : Nat) : (x.leading count).1 ≠ [] :=
  padZeros_ne_nil count (natDigits_ne_nil _)

/-- The numeral of the general form. -/
def numeral (x : Binary64) (count : Nat) : Numeral :=
  let (ds, e) := x.leading count
  if e < -4 ∨ (count : Int) ≤ e then ⟨ds.take 1, trimZeros (ds.drop 1), some e⟩
  else ⟨(positional ds e).1, trimZeros (positional ds e).2, none⟩

theorem generalForm_eq (x : Binary64) {count : Nat} (h : 0 < count) :
    x.generalForm count false = (x.numeral count).text := by
  have hmax : max count 1 = count := Nat.max_eq_left h
  unfold generalForm numeral leading
  simp only [hmax, Bool.false_eq_true, if_false]
  generalize (if (x.significant count).digits = 0 then (0 : Int) else (x.significant count).exponent + count - 1) = e
  split
  · rfl
  · exact (List.append_nil _).symm

theorem numeral_proper (x : Binary64) (count : Nat) : (x.numeral count).Proper := by
  have hdigits := x.digits_leading count
  have hne := x.leading_ne_nil count
  unfold numeral
  dsimp only
  split
  · refine ⟨hdigits.take 1, digits_trimZeros (hdigits.drop 1), fun h => ?_⟩
    rcases List.take_eq_nil_iff.1 h with h | h
    · cases h
    · exact hne h
  · exact ⟨(digits_positional hdigits _).1, digits_trimZeros (digits_positional hdigits _).2, positional_ne_nil _ _⟩

/-- The numeral with a digit behind the point, if it has neither a point nor an exponent. -/
def Numeral.pointed (n : Numeral) : Numeral :=
  if n.fraction = [] ∧ n.exponent? = none then { n with fraction := ['0'] } else n

theorem Numeral.Proper.pointed {n : Numeral} (h : n.Proper) : n.pointed.Proper := by
  unfold Numeral.pointed
  split
  · exact ⟨h.whole, .cons (by decide) .nil, h.ne_nil⟩
  · exact h

theorem Numeral.mem_text_pointed (n : Numeral) : '.' ∈ n.pointed.text ∨ 'e' ∈ n.pointed.text := by
  have hpoint : ∀ m : Numeral, m.fraction ≠ [] → '.' ∈ m.text := by
    intro m hm
    rw [Numeral.text, afterPoint, if_neg (by simpa using hm)]
    simp
  unfold Numeral.pointed
  split
  · exact .inl (hpoint _ (by simp))
  · rename_i hnot
    by_cases hfraction : n.fraction = []
    · obtain ⟨e, he⟩ := Option.ne_none_iff_exists'.1 fun he => hnot ⟨hfraction, he⟩
      refine .inr ?_
      rw [Numeral.text, he, Option.elim_some, exponentText]
      simp
    · exact .inl (hpoint n hfraction)

end Binary64

theorem isIntChar_of_isDigit {c : Char} (h : c.isDigit = true) : isIntChar c = true := by
  rw [isIntChar, h, Bool.or_true]

/-- The text of a finite number is a numeral with a point or an exponent, behind the number's sign. -/
theorem floatText_eq {x : Binary64} (h : x.isFinite = true) :
    floatText x = x.signText ++ (x.numeral 14).pointed.text := by
  have hproper := x.numeral_proper 14
  have hgeneral : x.general 14 = x.signText ++ (x.numeral 14).text := by
    rw [Binary64.general, if_pos h, x.generalForm_eq (by decide)]
  have hsign : x.signText.all isIntChar = true := by
    unfold Binary64.signText
    split <;> rfl
  unfold floatText
  dsimp only
  rw [hgeneral, List.all_append, hsign, Bool.true_and]
  generalize x.numeral 14 = n at hproper ⊢
  unfold Binary64.Numeral.pointed
  by_cases hplain : n.fraction = [] ∧ n.exponent? = none
  · obtain ⟨hfraction, hexponent⟩ := hplain
    have htext : n.text = n.whole := by
      rw [Binary64.Numeral.text, hfraction, hexponent]
      simp [Binary64.afterPoint]
    have hall : n.text.all isIntChar = true := by
      rw [htext]
      exact List.all_eq_true.2 fun c hc => isIntChar_of_isDigit (hproper.whole c hc)
    rw [if_pos hall, if_pos ⟨hfraction, hexponent⟩, htext, Binary64.Numeral.text, hexponent, List.append_assoc]
    simp [Binary64.afterPoint]
  · have hall : ¬ n.text.all isIntChar = true := by
      intro hall
      have hmem := n.mem_text_pointed
      rw [Binary64.Numeral.pointed, if_neg hplain] at hmem
      rcases hmem with hmem | hmem
      · exact absurd (List.all_eq_true.1 hall _ hmem) (by decide)
      · exact absurd (List.all_eq_true.1 hall _ hmem) (by decide)
    rw [if_neg hall, if_neg hplain]

/-- The text of a floating point number is not made of the characters of integers alone. -/
theorem exists_not_isIntChar (x : Binary64) : ∃ c ∈ floatText x, isIntChar c = false := by
  unfold floatText
  dsimp only
  split
  · exact ⟨'.', by simp, by decide⟩
  · rename_i hall
    simpa using hall

theorem floatText_ne_nil (x : Binary64) : floatText x ≠ [] := by
  obtain ⟨c, hc, -⟩ := exists_not_isIntChar x
  exact List.ne_nil_of_mem hc

/-! ## The characters of numbers -/

/-- A character of a number's text. -/
def isNumberChar (c : Char) : Bool :=
  c.isDigit || ['-', '+', '.', 'e', 'i', 'n', 'f', 'a'].contains c

theorem isNumberChar_of_isDigit {c : Char} (h : c.isDigit = true) : isNumberChar c = true := by
  rw [isNumberChar, h, Bool.true_or]

theorem Binary64.Numeral.Proper.isNumberChar {n : Numeral} (h : n.Proper) : Only isNumberChar n.text := by
  have hmono : ∀ {ds}, Digits ds → Only Scratchpad.isNumberChar ds := fun hds => hds.mono fun _ => isNumberChar_of_isDigit
  refine .append (.append (hmono h.whole) ?_) ?_
  · unfold afterPoint
    split
    · exact .nil
    · exact .cons (by decide) (hmono h.fraction)
  · cases n.exponent? with
    | none => exact .nil
    | some e =>
      refine .cons (by decide) (.cons ?_ (hmono (digits_padZeros 2 (digits_natDigits _))))
      split <;> decide

theorem isNumberChar_intText (i : Int) : Only isNumberChar (intText i) := by
  refine .append ?_ ((digits_natDigits _).mono fun _ => isNumberChar_of_isDigit)
  split
  · exact .of_all (by decide)
  · exact .nil

theorem isNumberChar_floatText (x : Binary64) : Only isNumberChar (floatText x) := by
  have hsign : Only isNumberChar x.signText := by
    unfold Binary64.signText
    split
    · exact .of_all (by decide)
    · exact .nil
  by_cases h : x.isFinite = true
  · rw [floatText_eq h]
    exact .append hsign (x.numeral_proper 14).pointed.isNumberChar
  · have hspecial : Only isNumberChar (x.general 14) := by
      rw [Binary64.general, if_neg h, Binary64.specialText]
      refine .append hsign ?_
      split <;> exact .of_all (by decide)
    unfold floatText
    dsimp only
    split
    · exact .append hspecial (.of_all (by decide))
    · exact hspecial

end Scratchpad
