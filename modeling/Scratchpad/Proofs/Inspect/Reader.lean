import Mathlib.Data.List.Forall2
import Scratchpad.Inspect.Layout
import Scratchpad.Proofs.Lua.Name
import Scratchpad.Proofs.Number.Numeral

/-!
# Reading shown values

`tokens` reads the text of a shown value, however it is laid out: braces, equals signs and scalars are its tokens, while
white space, commas and the brackets around keys are skipped. A text `Reads` as some tokens if they are its tokens in
front of every text that does not go on with a word. Main statements: integers, names and quoted texts read as
themselves (`reads_intText`, `reads_name`, `reads_quoteText`), and both layouts of a table read as the tokens of its
items between braces (`reads_arrange`).
-/

namespace Scratchpad.Inspect

open Lua

/-! ## Tokens -/

/-- A token of a shown value. -/
inductive Token where
  | opening
  | closing
  | equals
  | scalar (v : Value)
  deriving DecidableEq, Repr

/-- The scalar that a word stands for. -/
def readWord : List Char → Value
  | [] => .text ""
  | c :: ds =>
    if c :: ds = ['t', 'r', 'u', 'e'] then .bool true
    else if c :: ds = ['f', 'a', 'l', 's', 'e'] then .bool false
    else if c = '-' then .int (-(readDigits ds : Int))
    else if c.isDigit then .int (readDigits (c :: ds))
    else .text (String.ofList (c :: ds))

/-- The character that a letter behind a backslash stands for. -/
def unescape (c : Char) : Char :=
  if c = 'n' then '\n'
  else if c = 'r' then '\r'
  else if c = 't' then '\t'
  else if c = 'a' then '\x07'
  else if c = 'b' then '\x08'
  else if c = 'f' then '\x0C'
  else if c = 'v' then '\x0B'
  else c

/-- A character of a name or a number. -/
def isWordChar (c : Char) : Bool :=
  isNameRest c || c == '-'

/-- Where the reader stands. What it has read of a scalar is kept with the last character first. -/
inductive Place where
  | between
  | word (read : List Char)
  | quoted (read : List Char)
  | escaped (read : List Char)

/-- A character between tokens. -/
def begin (c : Char) : List Token × Place :=
  if c = '\x7b' then ([.opening], .between)
  else if c = '\x7d' then ([.closing], .between)
  else if c = '=' then ([.equals], .between)
  else if c = '\x22' then ([], .quoted [])
  else if isWordChar c then ([], .word [c])
  else ([], .between)

/-- The tokens that end at a character, and the place behind it. -/
def Place.step : Place → Char → List Token × Place
  | .between, c => begin c
  | .word w, c =>
    if isWordChar c then ([], .word (c :: w)) else (.scalar (readWord w.reverse) :: (begin c).1, (begin c).2)
  | .quoted w, c =>
    if c = '\x22' then ([.scalar (.text (String.ofList w.reverse))], .between)
    else if c = '\\' then ([], .escaped w)
    else ([], .quoted (c :: w))
  | .escaped w, c => ([], .quoted (unescape c :: w))

/-- The tokens of a text that is read from some place on. -/
def Place.tokens : Place → List Char → List Token
  | .word w, [] => [.scalar (readWord w.reverse)]
  | _, [] => []
  | p, c :: cs => (p.step c).1 ++ (p.step c).2.tokens cs

/-- The tokens of a text. -/
def tokens (cs : List Char) : List Token :=
  Place.between.tokens cs

/-! ## Texts that read as tokens -/

/-- The text does not go on with a word. -/
def Ends (cs : List Char) : Prop :=
  ∀ c ∈ cs.head?, isWordChar c = false

/-- The tokens of the text are `ts`, whatever comes behind it. -/
def Reads (cs : List Char) (ts : List Token) : Prop :=
  ∀ rest, Ends rest → tokens (cs ++ rest) = ts ++ tokens rest

/-- A character that is skipped. -/
def IsGap (c : Char) : Prop :=
  begin c = ([], .between)

section Reads

variable {c : Char} {cs ds sep : List Char} {ts us : List Token}

theorem tokens_cons (c : Char) (cs : List Char) : tokens (c :: cs) = (begin c).1 ++ (begin c).2.tokens cs := rfl

theorem begin_of_isWordChar (h : isWordChar c = true) : begin c = ([], .word [c]) := by
  have hne : ∀ d, isWordChar d = false → c ≠ d := fun d hd e => by rw [e, hd] at h; cases h
  rw [begin, if_neg (hne _ (by decide)), if_neg (hne _ (by decide)), if_neg (hne _ (by decide)),
    if_neg (hne _ (by decide)), if_pos h]

theorem IsGap.ends (h : IsGap c) (cs : List Char) : Ends (c :: cs) := by
  rintro d hd
  cases hd
  refine Bool.eq_false_iff.2 fun hw => ?_
  rw [IsGap, begin_of_isWordChar hw] at h
  cases h

theorem Ends.append (hc : Ends cs) (hd : Ends ds) : Ends (cs ++ ds) := by
  cases cs with
  | nil => exact hd
  | cons c cs => exact hc

namespace Reads

theorem nil : Reads [] [] :=
  fun _ _ => rfl

theorem append (hc : Reads cs ts) (hd : Reads ds us) (he : Ends ds) : Reads (cs ++ ds) (ts ++ us) := by
  intro rest hrest
  rw [List.append_assoc, hc _ (he.append hrest), hd rest hrest, List.append_assoc]

/-- A sign in front of a text is a token in front of its tokens. -/
theorem sign {t : Token} (hc : begin c = ([t], .between)) (h : Reads cs ts) : Reads (c :: cs) (t :: ts) := by
  intro rest hrest
  rw [List.cons_append, tokens_cons, hc]
  exact congrArg (t :: ·) (h rest hrest)

theorem gap (hc : IsGap c) (h : Reads cs ts) : Reads (c :: cs) ts := by
  intro rest hrest
  rw [List.cons_append, tokens_cons, hc]
  exact h rest hrest

theorem gaps (hsep : ∀ c ∈ sep, IsGap c) (h : Reads cs ts) : Reads (sep ++ cs) ts := by
  induction sep with
  | nil => exact h
  | cons c sep ih => exact .gap (hsep c List.mem_cons_self) (ih fun d hd => hsep d (List.mem_cons_of_mem c hd))

end Reads

/-! ## Words -/

theorem tokens_word_of_ends (w : List Char) (h : Ends cs) :
    (Place.word w).tokens cs = .scalar (readWord w.reverse) :: tokens cs := by
  cases cs with
  | nil => rfl
  | cons c cs =>
    have hc : isWordChar c = false := h c rfl
    rw [Place.tokens, Place.step, if_neg (Bool.eq_false_iff.1 hc), tokens_cons]
    rfl

theorem tokens_word (hw : ∀ c ∈ cs, isWordChar c = true) (h : Ends ds) (w : List Char) :
    (Place.word w).tokens (cs ++ ds) = .scalar (readWord (w.reverse ++ cs)) :: tokens ds := by
  induction cs generalizing w with
  | nil => rw [List.nil_append, List.append_nil, tokens_word_of_ends w h]
  | cons c cs ih =>
    rw [List.cons_append, Place.tokens, Place.step, if_pos (hw c List.mem_cons_self), List.nil_append,
      ih (fun d hd => hw d (List.mem_cons_of_mem c hd)), List.reverse_cons, List.append_assoc, List.singleton_append]

/-- A word reads as the scalar that it stands for. -/
theorem reads_word (hne : cs ≠ []) (hw : ∀ c ∈ cs, isWordChar c = true) : Reads cs [.scalar (readWord cs)] := by
  intro rest hrest
  obtain ⟨c, cs, rfl⟩ := List.exists_cons_of_ne_nil hne
  rw [List.cons_append, tokens_cons, begin_of_isWordChar (hw c List.mem_cons_self)]
  exact tokens_word (fun d hd => hw d (List.mem_cons_of_mem c hd)) hrest [c]

/-! ## Numbers -/

theorem isWordChar_of_isDigit (h : c.isDigit = true) : isWordChar c = true := by
  simp [isWordChar, isNameRest, Char.isAlphanum, h]

theorem readWord_natDigits (n : Nat) : readWord (natDigits n) = .int n := by
  obtain ⟨c, ds, hds⟩ := List.exists_cons_of_ne_nil (natDigits_ne_nil n)
  have hc : c.isDigit = true := digits_natDigits n c (hds ▸ List.mem_cons_self)
  have hne : ∀ d, d.isDigit = false → c ≠ d := fun d hd e => by rw [e, hd] at hc; cases hc
  have hread := readDigits_natDigits n
  rw [hds] at hread ⊢
  rw [readWord, if_neg fun e => hne 't' (by decide) (List.cons.inj e).1,
    if_neg fun e => hne 'f' (by decide) (List.cons.inj e).1, if_neg (hne '-' (by decide)), if_pos hc, hread]

/-- An integer reads as itself. -/
theorem reads_intText (i : Int) : Reads (intText i) [.scalar (.int i)] := by
  have hdigits : ∀ c ∈ natDigits i.natAbs, isWordChar c = true := fun c hc =>
    isWordChar_of_isDigit (digits_natDigits _ c hc)
  have hword : ∀ c ∈ intText i, isWordChar c = true := by
    unfold intText
    split
    · exact List.forall_mem_cons.2 ⟨by decide, hdigits⟩
    · exact hdigits
  have hne : intText i ≠ [] := by
    rw [intText]
    exact List.append_ne_nil_of_right_ne_nil _ (natDigits_ne_nil _)
  have hread : readWord (intText i) = .int i := by
    unfold intText
    split
    · rw [List.singleton_append, readWord, if_neg (by simp), if_neg (by simp), if_pos rfl, readDigits_natDigits]
      congr 1
      omega
    · rw [List.nil_append, readWord_natDigits]
      congr 1
      omega
  have h := reads_word hne hword
  rwa [hread] at h

/-! ## Names -/

/-- No number begins like a name. -/
theorem not_digit_of_isNameStart (h : isNameStart c = true) : c ≠ '-' ∧ c.isDigit = false := by
  delta isNameStart Char.isAlpha Char.isUpper Char.isLower at h
  simp only [Bool.or_eq_true, Bool.and_eq_true, decide_eq_true_eq, beq_iff_eq, ge_iff_le, UInt32.le_iff_toNat_le] at h
  have hle : 65 ≤ c.val.toNat := by
    rcases h with (⟨hle, -⟩ | ⟨hle, -⟩) | rfl
    · exact hle
    · exact Nat.le_trans (by decide) hle
    · decide
  constructor
  · rintro rfl
    exact absurd hle (by decide)
  · refine Bool.eq_false_iff.2 fun hdigit => ?_
    simp only [Char.isDigit, Bool.and_eq_true, decide_eq_true_eq, UInt32.le_iff_toNat_le] at hdigit
    exact absurd (Nat.le_trans hle hdigit.2) (by decide)

/-- The text of a key without brackets reads as the key. -/
theorem reads_name {s : String} (h : isIdentifier s = true) : Reads s.toList [.scalar (.text s)] := by
  rw [isIdentifier, Bool.and_eq_true, Bool.not_eq_true'] at h
  obtain ⟨hword, hreserved⟩ := h
  have hne : s.toList ≠ [] := by
    intro e
    rw [e] at hword
    cases hword
  have hrest : ∀ c ∈ s.toList, isWordChar c = true := fun c hc => by
    rw [isWordChar, mem_isWord hword c hc, Bool.true_or]
  have hread : readWord s.toList = .text s := by
    obtain ⟨c, cs, hs⟩ := List.exists_cons_of_ne_nil hne
    rw [hs, isWord, Bool.and_eq_true] at hword
    have hword? : ∀ w : String, s.toList = w.toList → reservedWords.contains w = false := fun w e => by
      rwa [← String.toList_inj.1 e]
    have hstart := not_digit_of_isNameStart hword.1
    rw [hs, readWord, if_neg fun e => ?_, if_neg fun e => ?_, if_neg hstart.1, if_neg (by simp [hstart.2]), ← hs,
      String.ofList_toList]
    · exact absurd (hword? "false" (hs.trans e)) (by decide)
    · exact absurd (hword? "true" (hs.trans e)) (by decide)
  have h := reads_word hne hrest
  rwa [hread] at h

/-! ## Quoted texts -/

/-- A character that is shown as it is or escaped by a letter. -/
def Readable (c : Char) : Prop :=
  c.toNat ≠ 127 ∧ (32 ≤ c.toNat ∨ c ∈ ['\n', '\r', '\t', '\x07', '\x08', '\x0C', '\x0B'])

instance : DecidablePred Readable := fun c =>
  inferInstanceAs (Decidable (c.toNat ≠ 127 ∧ (32 ≤ c.toNat ∨ c ∈ ['\n', '\r', '\t', '\x07', '\x08', '\x0C', '\x0B'])))

/-- A letter behind a backslash reads as the character that it escapes, but for the null character. -/
theorem unescape_of_escapeLetter? {l : Char} (h : escapeLetter? c = some l) (hc : c ≠ '\x00') : unescape l = c := by
  unfold escapeLetter? at h
  split_ifs at h
  all_goals
    cases h
    subst_vars
    rfl

/-- One character of a quoted text reads as that character. -/
theorem tokens_quoteChar (hc : Readable c) (w : List Char) (cs : List Char) :
    (Place.quoted w).tokens (quoteChar c ++ cs) = (Place.quoted (c :: w)).tokens cs := by
  unfold quoteChar
  split
  · rename_i l hl
    have hnull : c ≠ '\x00' := by
      rintro rfl
      exact absurd hc (by decide)
    have hread : (Place.quoted w).tokens (['\\', l] ++ cs) = (Place.quoted (unescape l :: w)).tokens cs := rfl
    rw [hread, unescape_of_escapeLetter? hl hnull]
  · rename_i hnone
    have hplain : ¬ (c.toNat < 32 ∨ c.toNat = 127) := by
      rintro (hlt | heq)
      · rcases hc.2 with hle | hmem
        · exact absurd hlt (Nat.not_lt.2 hle)
        · have hletters : ['\n', '\r', '\t', '\x07', '\x08', '\x0C', '\x0B'].all (escapeLetter? · ≠ none) = true := by
            decide
          exact of_decide_eq_true (List.all_eq_true.1 hletters c hmem) hnone
      · exact hc.1 heq
    have hne : c ≠ '\x22' ∧ c ≠ '\\' := by
      constructor
      · rintro rfl
        cases hnone
      · rintro rfl
        cases hnone
    rw [if_neg hplain, List.singleton_append, Place.tokens, Place.step, if_neg hne.1, if_neg hne.2, List.nil_append]

theorem tokens_quoted (hc : ∀ c ∈ cs, Readable c) (w : List Char) (ds : List Char) :
    (Place.quoted w).tokens (cs.flatMap quoteChar ++ '\x22' :: ds) =
      .scalar (.text (String.ofList (w.reverse ++ cs))) :: tokens ds := by
  induction cs generalizing w with
  | nil =>
    rw [List.append_nil]
    rfl
  | cons c cs ih =>
    rw [List.flatMap_cons, List.append_assoc, tokens_quoteChar (hc c List.mem_cons_self),
      ih fun d hd => hc d (List.mem_cons_of_mem c hd), List.reverse_cons, List.append_assoc, List.singleton_append]

/-- A quoted text reads as itself. -/
theorem reads_quoteText (hc : ∀ c ∈ cs, Readable c) : Reads (quoteText cs) [.scalar (.text (String.ofList cs))] := by
  intro rest _
  rw [quoteText, List.append_assoc, List.cons_append, tokens_cons]
  exact tokens_quoted hc [] rest

/-! ## Tables -/

theorem isGap_of_mem_gaps (h : c ∈ [' ', '\n', ',', '[', ']']) : IsGap c := by
  have hall : ∀ c ∈ [' ', '\n', ',', '[', ']'], begin c = ([], Place.between) := by
    intro c hc
    simp only [List.mem_cons, List.not_mem_nil, or_false] at hc
    rcases hc with rfl | rfl | rfl | rfl | rfl <;> rfl
  exact hall c h

/-- A separator between items. -/
def IsSeparator (sep : List Char) : Prop :=
  sep ≠ [] ∧ ∀ c ∈ sep, IsGap c

theorem isSeparator_of_subset (hne : sep ≠ []) (h : sep ⊆ [' ', '\n', ',', '[', ']']) : IsSeparator sep :=
  ⟨hne, fun _ hc => isGap_of_mem_gaps (h hc)⟩

theorem IsSeparator.ends (h : IsSeparator sep) (cs : List Char) : Ends (sep ++ cs) := by
  obtain ⟨c, sep, rfl⟩ := List.exists_cons_of_ne_nil h.1
  exact (h.2 c List.mem_cons_self).ends _

variable {items : List (List Char)} {tss : List (List Token)}

/-- Items with separators between them read as their tokens, one after the other. -/
theorem reads_joinItems (hsep : IsSeparator sep) (h : List.Forall₂ Reads items tss) :
    Reads (joinItems sep items) tss.flatten := by
  induction h with
  | nil => exact .nil
  | @cons t ts items tss ht h ih =>
    cases h with
    | nil =>
      rw [joinItems, List.flatten_cons, List.flatten_nil, List.append_nil]
      exact ht
    | cons hu h =>
      rw [joinItems, List.append_assoc, List.flatten_cons]
      exact ht.append (.gaps hsep.2 ih) (hsep.ends _)

theorem reads_closing : Reads ['\x7d'] [.closing] :=
  .sign rfl .nil

/-- A table on one line reads as its items between braces. -/
theorem reads_oneLine (h : List.Forall₂ Reads items tss) :
    Reads (oneLine items) (.opening :: tss.flatten ++ [.closing]) := by
  have hgap : IsGap ' ' := isGap_of_mem_gaps (by decide)
  have hsep : IsSeparator [',', ' '] := isSeparator_of_subset (by decide) (by decide)
  exact .append (.sign rfl (.gap hgap (reads_joinItems hsep h))) (.gap hgap reads_closing) (hgap.ends _)

theorem isGap_of_mem_pad {n : Nat} (h : c ∈ List.replicate n ' ') : IsGap c := by
  rw [List.eq_of_mem_replicate h]
  exact isGap_of_mem_gaps (by decide)

/-- A table with an item a line reads as its items between braces. -/
theorem reads_manyLines (indent level : Nat) (h : List.Forall₂ Reads items tss) :
    Reads (manyLines indent level items) (.opening :: tss.flatten ++ [.closing]) := by
  have hgap : IsGap '\n' := isGap_of_mem_gaps (by decide)
  have hsep : IsSeparator [',', '\n'] := isSeparator_of_subset (by decide) (by decide)
  have hpadded : List.Forall₂ Reads (items.map fun t => List.replicate (indent * (level + 1)) ' ' ++ t) tss := by
    rw [List.forall₂_map_left_iff]
    exact h.imp fun _ _ ht => .gaps (fun _ hc => isGap_of_mem_pad hc) ht
  have hclosing : Reads ('\n' :: (List.replicate (indent * level) ' ' ++ ['\x7d'])) [.closing] :=
    .gap hgap (.gaps (fun _ hc => isGap_of_mem_pad hc) reads_closing)
  have hitems := Reads.sign (c := '\x7b') (t := .opening) rfl (.gap hgap (reads_joinItems hsep hpadded))
  unfold manyLines
  dsimp only
  rw [List.append_assoc]
  exact hitems.append hclosing (hgap.ends _)

theorem reads_arrange (layout : Layout) (level : Nat) (scalars : Bool) (h : List.Forall₂ Reads items tss) :
    Reads (arrange layout level scalars items) (.opening :: tss.flatten ++ [.closing]) := by
  unfold arrange
  dsimp only
  split
  · exact reads_oneLine h
  · exact reads_manyLines _ _ h

end Reads

end Scratchpad.Inspect
