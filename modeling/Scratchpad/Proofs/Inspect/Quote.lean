import Mathlib.Data.List.Chain
import Scratchpad.Inspect.Quote
import Scratchpad.Proofs.Lua.Lexer.Lines
import Scratchpad.Proofs.Lua.Name
import Scratchpad.Proofs.Text.Utf8

/-!
# Quoted strings as literals

A quoted string should be one string literal of the language that stands for the string (`IsLiteral`). A control
without a letter of its own is written as a backslash and the digits of its number, as few as there are, and a digit
behind it is read as one of them. Main statement: a quoted string reads back just if no digit follows such a control
(`Clear`), so clear strings with the same text are the same (`isLiteral_quote_iff`).
-/

namespace Scratchpad.Inspect

open Lua Lexer Text

/-! ## Literals -/

/-- The text is one string literal of the language and nothing else, and stands for these bytes. -/
def IsLiteral (text : List Char) (v : Bytes) : Prop :=
  ∃ raw, next 1 (Utf8.encode text) = .token ⟨.str v, raw, 1⟩ []

/-- A control that is written with fewer than three digits. -/
def isShort (b : UInt8) : Bool :=
  b < 7 || 13 < b && b < 32

/-- No digit follows a control that is written with fewer than three digits. -/
def Clear (bs : Bytes) : Prop :=
  bs.IsChain fun b d => isShort b = true → Byte.isDigit d = false

instance (bs : Bytes) : Decidable (Clear bs) :=
  inferInstanceAs (Decidable (List.IsChain _ bs))

theorem IsLiteral.unique {text : List Char} {v w : Bytes} (hv : IsLiteral text v) (hw : IsLiteral text w) : v = w := by
  obtain ⟨raw, hv⟩ := hv
  obtain ⟨raw', hw⟩ := hw
  rw [hv] at hw
  cases hw
  rfl

/-! ## Bytes between quotes -/

/-- How a byte of a string stands between quotes: outside of ASCII as it is, or else in decimal. -/
def written (asText : Bool) (b : UInt8) : Bytes :=
  if asText && 128 ≤ b then [b] else Utf8.encode (quoteByte b)

/-- The ways in which a byte is written: as itself, by a letter, or by its number. -/
inductive WrittenForm (b : UInt8) : Bytes → Prop where
  | plain (hquote : b ≠ 34) (hnewline : Byte.isNewline b = false) (hescape : b ≠ 92) (hshort : isShort b = false) :
      WrittenForm b [b]
  | letter {l : UInt8} (hl : letterEscape? l = some b) (hshort : isShort b = false) : WrittenForm b [92, l]
  | digits {d : UInt8} {ds : Bytes} (hdigits : ∀ c ∈ d :: ds, Byte.isDigit c = true)
      (hvalue : Numeral.decimalValue (d :: ds) = b.toNat) (hlength : (d :: ds).length ≤ 3)
      (hshort : isShort b = true ↔ (d :: ds).length < 3) : WrittenForm b (92 :: d :: ds)

/-- The form of what is written for a byte, as a check. -/
def hasForm (b : UInt8) : Bytes → Bool
  | [c] => c == b && b != 34 && !Byte.isNewline b && b != 92 && !isShort b
  | 92 :: d :: ds =>
    letterEscape? d == some b && ds.isEmpty && !isShort b ||
      (d :: ds).all Byte.isDigit && Numeral.decimalValue (d :: ds) == b.toNat && (d :: ds).length ≤ 3 &&
        isShort b == ((d :: ds).length < 3 : Bool)
  | _ => false

theorem WrittenForm.of_hasForm {b : UInt8} {w : Bytes} (h : hasForm b w = true) : WrittenForm b w := by
  unfold hasForm at h
  split at h
  · rename_i c
    simp only [Bool.and_eq_true, beq_iff_eq, bne_iff_ne, Bool.not_eq_true'] at h
    obtain ⟨⟨⟨⟨rfl, hquote⟩, hnewline⟩, hescape⟩, hshort⟩ := h
    exact .plain hquote hnewline hescape hshort
  · rename_i d ds _
    simp only [Bool.or_eq_true, Bool.and_eq_true, beq_iff_eq, Bool.not_eq_true', List.isEmpty_iff, List.all_eq_true,
      decide_eq_true_eq] at h
    rcases h with ⟨⟨hl, rfl⟩, hshort⟩ | ⟨⟨⟨hdigits, hvalue⟩, hlength⟩, hshort⟩
    · exact .letter hl hshort
    · exact .digits hdigits hvalue hlength (by rw [hshort, decide_eq_true_eq])
  · cases h

theorem writtenForm_written (asText : Bool) (b : UInt8) : WrittenForm b (written asText b) := by
  have hall : ∀ asText : Bool, ∀ n < 256, hasForm n.toUInt8 (written asText n.toUInt8) = true := by decide +kernel
  have hb := hall asText b.toNat b.toNat_lt
  rw [show b.toNat.toUInt8 = b from UInt8.ofNat_toNat] at hb
  exact .of_hasForm hb

/-- A digit is written as itself, and nothing else begins with a digit. -/
theorem head?_written (asText : Bool) (b : UInt8) :
    (Byte.isDigit b = true → written asText b = [b]) ∧
      ∃ c w, written asText b = c :: w ∧ Byte.isDigit c = Byte.isDigit b := by
  have hall : ∀ asText : Bool, ∀ n < 256, (Byte.isDigit n.toUInt8 = true → written asText n.toUInt8 = [n.toUInt8]) ∧
      ((written asText n.toUInt8).head?.map Byte.isDigit) = some (Byte.isDigit n.toUInt8) := by decide +kernel
  have hb := hall asText b.toNat b.toNat_lt
  rw [show b.toNat.toUInt8 = b from UInt8.ofNat_toNat] at hb
  refine ⟨hb.1, ?_⟩
  obtain ⟨c, hc, hdigit⟩ := Option.map_eq_some_iff.1 hb.2
  obtain ⟨w, hw⟩ := List.head?_eq_some_iff.1 hc
  exact ⟨c, w, hw, hdigit⟩

/-! ## Reading -/

section Reading

variable {asText : Bool} {b : UInt8} {bs acc v : Bytes} {fuel line last : Nat}

/-- The bytes of a string and the closing quote. -/
def quotedBody (asText : Bool) (bs : Bytes) : Bytes :=
  bs.flatMap (written asText) ++ [34]

theorem quotedBody_cons (asText : Bool) (b : UInt8) (bs : Bytes) :
    quotedBody asText (b :: bs) = written asText b ++ quotedBody asText bs := by
  rw [quotedBody, List.flatMap_cons, List.append_assoc, quotedBody]

/-- The digits at the front of what is written are digits of the string. -/
theorem digits_quotedBody (asText : Bool) : ∀ (k : Nat) (bs : Bytes), ∃ m ≤ bs.length,
    (((quotedBody asText bs).take k).takeWhile Byte.isDigit).length = m ∧
      (quotedBody asText bs).drop m = quotedBody asText (bs.drop m) ∧
      (m = 0 ↔ k = 0 ∨ ∀ d ∈ bs.head?, Byte.isDigit d = false)
  | 0, bs => ⟨0, Nat.zero_le _, rfl, rfl, by simp⟩
  | k + 1, [] => ⟨0, Nat.zero_le _, rfl, rfl, by simp⟩
  | k + 1, d :: bs => by
    obtain ⟨hself, c, w, hw, hc⟩ := head?_written asText d
    rw [quotedBody_cons]
    rcases hd : Byte.isDigit d with _ | _
    · refine ⟨0, Nat.zero_le _, ?_, by simp [quotedBody_cons], by simp [hd]⟩
      rw [hw, List.cons_append, List.take_succ_cons, List.takeWhile_cons, hc, hd]
      rfl
    · obtain ⟨m, hm, hlength, hdrop, -⟩ := digits_quotedBody asText k bs
      refine ⟨m + 1, by simpa using hm, ?_, ?_, by simp [hd]⟩
      · rw [hself hd, List.singleton_append, List.take_succ_cons, List.takeWhile_cons, hd, if_pos rfl, List.length_cons,
          hlength]
      · rw [hself hd, List.singleton_append, List.drop_succ_cons, hdrop, List.drop_succ_cons]

/-- An escape by digits takes the digits behind it, up to three in all. -/
theorem decimalEscape_append {ds rest before : Bytes} (hdigits : ∀ c ∈ ds, Byte.isDigit c = true)
    (hlength : ds.length ≤ 3) : decimalEscape line before (ds ++ rest) =
      let more := (rest.take (3 - ds.length)).takeWhile Byte.isDigit
      let n := Numeral.decimalValue (ds ++ more)
      if n ≤ 255 then .ok [n.toUInt8] line (rest.drop more.length)
      else badEscape line "decimal escape too large" before (byte '\\' :: (ds ++ more)) (rest.drop more.length) := by
  have htake : ((ds ++ rest).take 3).takeWhile Byte.isDigit =
      ds ++ (rest.take (3 - ds.length)).takeWhile Byte.isDigit := by
    rw [List.take_append, List.take_of_length_le hlength, List.takeWhile_append_of_pos hdigits]
  rw [decimalEscape, htake]
  simp only [List.length_append, List.drop_append, List.drop_of_length_le (Nat.le_add_right _ _), List.nil_append,
    Nat.add_sub_cancel_left]

theorem readEscape_letter {l x : UInt8} (h : letterEscape? l = some x) (before rest : Bytes) :
    readEscape line before (l :: rest) = .ok [x] line rest := by
  rw [readEscape, h]

theorem readEscape_digit {d : UInt8} (h : Byte.isDigit d = true) (before rest : Bytes) :
    readEscape line before (d :: rest) = decimalEscape line before (d :: rest) := by
  have hall : ∀ n < 256, Byte.isDigit n.toUInt8 = true → letterEscape? n.toUInt8 = none ∧ n.toUInt8 ≠ byte 'x' ∧
      n.toUInt8 ≠ byte 'u' ∧ Byte.isNewline n.toUInt8 = false ∧ n.toUInt8 ≠ byte 'z' := by decide +kernel
  have hd := hall d.toNat d.toNat_lt
  rw [show d.toNat.toUInt8 = d from UInt8.ofNat_toNat] at hd
  obtain ⟨hletter, hx, hu, hnewline, hz⟩ := hd h
  rw [readEscape, hletter]
  dsimp only
  rw [if_neg (by simpa using hx), if_neg (by simpa using hu), hnewline, if_neg (by simp), if_neg (by simpa using hz),
    if_pos h]

/-- The reading of an escape by digits. -/
theorem readQuoted_digits {d : UInt8} {ds : Bytes} (hdigits : ∀ c ∈ d :: ds, Byte.isDigit c = true)
    (hlength : (d :: ds).length ≤ 3) (rest acc : Bytes) (fuel line : Nat) :
    let more := (rest.take (3 - (d :: ds).length)).takeWhile Byte.isDigit
    let n := Numeral.decimalValue (d :: ds ++ more)
    (n ≤ 255 → readQuoted 34 (fuel + 1) line acc (byte '\\' :: (d :: ds) ++ rest) =
      readQuoted 34 fuel line (n.toUInt8 :: acc) (rest.drop more.length)) ∧
    (255 < n → ∃ e, readQuoted 34 (fuel + 1) line acc (byte '\\' :: (d :: ds) ++ rest) = .error e) := by
  intro more n
  have hread : decimalEscape line (34 :: acc.reverse) (d :: ds ++ rest) = _ := decimalEscape_append hdigits hlength
  rw [List.cons_append, readQuoted, if_neg (by decide), if_neg (by decide), if_pos (by decide), List.cons_append,
    readEscape_digit (hdigits d List.mem_cons_self), ← List.cons_append, hread]
  dsimp only
  refine ⟨fun hbyte => ?_, fun hlarge => ?_⟩
  · rw [if_pos hbyte]
    rfl
  · rw [if_neg (Nat.not_le.2 hlarge)]
    exact ⟨_, rfl⟩

/-- What reading one written byte does: the escape by digits goes on with the digits of the string behind it. -/
theorem readQuoted_quotedBody (asText : Bool) (b : UInt8) (bs acc : Bytes) (fuel line : Nat) :
    (¬ (isShort b = true ∧ ∃ d ∈ bs.head?, Byte.isDigit d = true) ∧
      readQuoted 34 (fuel + 1) line acc (quotedBody asText (b :: bs)) =
        readQuoted 34 fuel line (b :: acc) (quotedBody asText bs)) ∨
    (isShort b = true ∧ ∃ d ∈ bs.head?, Byte.isDigit d = true) ∧
      ((∃ e, readQuoted 34 (fuel + 1) line acc (quotedBody asText (b :: bs)) = .error e) ∨
        ∃ m x, 1 ≤ m ∧ m ≤ bs.length ∧ readQuoted 34 (fuel + 1) line acc (quotedBody asText (b :: bs)) =
          readQuoted 34 fuel line (x :: acc) (quotedBody asText (bs.drop m))) := by
  have hform := writtenForm_written asText b
  rw [quotedBody_cons]
  generalize written asText b = w at hform
  cases hform with
  | plain hquote hnewline hescape hshort =>
    refine .inl ⟨by simp [hshort], ?_⟩
    rw [List.singleton_append, readQuoted, if_neg (by simpa using hquote), hnewline, if_neg (by simp),
      if_neg (show ¬ (b == byte '\\') = true from fun h => hescape (beq_iff_eq.1 h))]
  | letter hl hshort =>
    refine .inl ⟨by simp [hshort], ?_⟩
    rw [List.cons_append, readQuoted, if_neg (by decide), if_neg (by decide), if_pos (by decide), List.singleton_append,
      readEscape_letter hl]
    rfl
  | digits hdigits hvalue hlength hshort =>
    rename_i d ds
    obtain ⟨m, hm, hmore, hdrop, hzero⟩ := digits_quotedBody asText (3 - (d :: ds).length) bs
    obtain ⟨hone, hlarge⟩ := readQuoted_digits hdigits hlength (quotedBody asText bs) acc fuel line
    rcases Nat.eq_zero_or_pos m with rfl | hpos
    · -- no digit follows, or there is no room for one
      left
      rw [List.length_eq_zero_iff.1 hmore, List.append_nil, hvalue] at hone
      have hone := hone (by have := b.toNat_lt; omega)
      rw [show b.toNat.toUInt8 = b from UInt8.ofNat_toNat] at hone
      refine ⟨?_, hone⟩
      rintro ⟨hs, c, hc, hdigit⟩
      rcases hzero.1 rfl with hfull | hnone
      · have := hshort.1 hs
        omega
      · exact absurd hdigit (by rw [hnone c hc]; simp)
    · right
      have hnonzero : ¬ (3 - (d :: ds).length = 0 ∨ ∀ d ∈ bs.head?, Byte.isDigit d = false) :=
        fun h => absurd (hzero.2 h) (by omega)
      rw [not_or] at hnonzero
      refine ⟨⟨hshort.2 (by omega), by simpa using hnonzero.2⟩, ?_⟩
      rcases Nat.lt_or_ge 255 (Numeral.decimalValue (d :: ds ++
        ((quotedBody asText bs).take (3 - (d :: ds).length)).takeWhile Byte.isDigit)) with hn | hn
      · exact .inl (hlarge hn)
      · rw [hmore, hdrop] at hone
        exact .inr ⟨m, _, hpos, hm, hone hn⟩

/-- A clear string is read between its quotes. -/
theorem readQuoted_clear (h : Clear bs) (hfuel : bs.length < fuel) :
    readQuoted 34 fuel line acc (quotedBody asText bs) = .ok (acc.reverse ++ bs) line [] := by
  induction bs generalizing acc fuel with
  | nil =>
    obtain ⟨fuel, rfl⟩ := Nat.exists_eq_add_of_lt hfuel
    rw [Nat.add_assoc, Nat.add_comm, List.append_nil]
    exact readQuoted_close 34 _ line acc []
  | cons b bs ih =>
    obtain ⟨fuel, rfl⟩ : ∃ n, fuel = n + 1 := ⟨fuel - 1, by omega⟩
    obtain ⟨hhead, htail⟩ := List.isChain_cons.1 h
    rcases readQuoted_quotedBody asText b bs acc fuel line with ⟨-, hread⟩ | ⟨⟨hs, d, hd, hdigit⟩, -⟩
    · rw [hread, ih htail (by simpa using hfuel)]
      simp
    · exact absurd hdigit (by rw [hhead d hd hs]; simp)

/-- What is read between the quotes is no longer than the string, and shorter if the string is not clear. -/
theorem length_of_readQuoted (n : Nat) : ∀ {bs acc : Bytes} {fuel : Nat}, bs.length ≤ n →
    readQuoted 34 fuel line acc (quotedBody asText bs) = .ok v last [] →
      v.length ≤ acc.length + bs.length ∧ (¬ Clear bs → v.length < acc.length + bs.length) := by
  induction n with
  | zero =>
    intro bs acc fuel hn h
    obtain rfl := List.length_eq_zero_iff.1 (Nat.le_zero.1 hn)
    rcases fuel with _ | fuel
    · cases h
    · have hclose := readQuoted_close 34 fuel line acc []
      rw [show quotedBody asText [] = [34] from rfl, hclose] at h
      cases h
      exact ⟨by simp, fun hno => absurd .nil hno⟩
  | succ n ih =>
    intro bs acc fuel hn h
    cases bs with
    | nil => exact ih (Nat.zero_le n) h
    | cons b bs =>
      rw [List.length_cons] at hn
      rcases fuel with _ | fuel
      · cases h
      rcases readQuoted_quotedBody asText b bs acc fuel line with
        ⟨hapart, hread⟩ | ⟨-, ⟨e, hread⟩ | ⟨m, x, hm, hmn, hread⟩⟩
      · rw [hread] at h
        obtain ⟨hle, hlt⟩ := ih (by omega) h
        rw [List.length_cons] at hle hlt
        refine ⟨by rw [List.length_cons]; omega, fun hno => ?_⟩
        have hmore := hlt fun hclear => hno (List.isChain_cons.2 ⟨fun d hd hs => ?_, hclear⟩)
        · rw [List.length_cons]
          omega
        · rcases hdigit : Byte.isDigit d with _ | _
          · rfl
          · exact absurd ⟨hs, d, hd, hdigit⟩ hapart
      · rw [hread] at h
        cases h
      · rw [hread] at h
        obtain ⟨hle, -⟩ := ih (by rw [List.length_drop]; omega) h
        rw [List.length_cons, List.length_drop] at hle
        rw [List.length_cons]
        exact ⟨by omega, fun _ => by omega⟩

/-- The string between quotes reads back just if it is clear. -/
theorem next_quotedBody_iff :
    (∃ raw, next 1 (34 :: quotedBody asText bs) = .token ⟨.str bs, raw, 1⟩ []) ↔ Clear bs := by
  rw [next_quote]
  constructor
  · rintro ⟨raw, h⟩
    split at h
    · rename_i v last rest hread
      cases h
      by_contra hno
      exact absurd ((length_of_readQuoted bs.length (Nat.le_refl _) hread).2 hno) (by simp)
    · cases h
  · intro h
    have hle : ∀ bs : Bytes, bs.length ≤ (quotedBody asText bs).length := fun bs => by
      induction bs with
      | nil => exact Nat.zero_le _
      | cons b bs ih =>
        obtain ⟨-, c, w, hw, -⟩ := head?_written asText b
        rw [quotedBody_cons, hw, List.length_cons, List.length_append, List.length_cons]
        omega
    rw [readQuoted_clear h (by have := hle bs; omega)]
    exact ⟨_, rfl⟩

end Reading

/-! ## Quoted texts and bytes -/

theorem encode_flatMap {α : Type} (f : α → List Char) (as : List α) :
    Utf8.encode (as.flatMap f) = as.flatMap fun a => Utf8.encode (f a) := by
  rw [Utf8.encode, List.flatMap_assoc]
  rfl

/-- A character is written as its bytes are. -/
theorem encode_quoteChar (c : Char) : Utf8.encode (quoteChar c) = (Utf8.encodeChar c).flatMap (written true) := by
  by_cases hc : c.toNat < 128
  · have hall : ∀ n < 128, Utf8.encode (quoteChar (Char.ofNat n)) = written true (byte (Char.ofNat n)) := by
      decide +kernel
    have h := hall c.toNat hc
    rw [Char.ofNat_toNat] at h
    rw [encodeChar_ascii hc, h, List.flatMap_singleton]
  · have hletter : escapeLetter? c = none := by
      rcases hsome : escapeLetter? c with _ | l
      · rfl
      · unfold escapeLetter? at hsome
        split_ifs at hsome <;> exact absurd (by subst c; decide) hc
    have hraw : ∀ b ∈ Utf8.encodeChar c, written true b = [b] := fun b hb => by
      have hle := Utf8.le_of_mem_encodeChar (Nat.le_of_not_lt hc) hb
      rw [written, if_pos]
      simpa [UInt8.le_iff_toNat_le] using hle
    rw [quoteChar, hletter]
    dsimp only
    rw [if_neg (by omega), List.flatMap_congr hraw, List.flatMap_singleton', Utf8.encode, List.flatMap_singleton]

theorem encode_quoteText (cs : List Char) : Utf8.encode (quoteText cs) = 34 :: quotedBody true (Utf8.encode cs) := by
  rw [quoteText, encode_append, encode_cons, encode_flatMap, quotedBody,
    show Utf8.encode cs = cs.flatMap Utf8.encodeChar from rfl, List.flatMap_assoc]
  simp only [encode_quoteChar]
  rfl

/-- Quoted bytes are the text that they stand for, if they are well-formed, and else written byte by byte. -/
theorem encode_quoteBytes (bs : Bytes) : ∃ asText, Utf8.encode (quoteBytes bs) = 34 :: quotedBody asText bs := by
  rcases hdecode : Utf8.decode bs with m | cs
  · refine ⟨false, ?_⟩
    rw [quoteBytes, hdecode]
    dsimp only
    rw [encode_append, encode_cons, encode_flatMap, quotedBody]
    rfl
  · refine ⟨true, ?_⟩
    rw [quoteBytes, hdecode]
    dsimp only
    rw [encode_quoteText, Utf8.encode_of_decode hdecode]

theorem isLiteral_quoteText_iff (cs : List Char) :
    IsLiteral (quoteText cs) (Utf8.encode cs) ↔ Clear (Utf8.encode cs) := by
  rw [IsLiteral, encode_quoteText]
  exact next_quotedBody_iff

theorem isLiteral_quoteBytes_iff (bs : Bytes) : IsLiteral (quoteBytes bs) bs ↔ Clear bs := by
  obtain ⟨asText, hbody⟩ := encode_quoteBytes bs
  rw [IsLiteral, hbody]
  exact next_quotedBody_iff

/-- Quoted texts and quoted bytes read back just if they are clear, and clear strings that are written alike are the
same. -/
theorem isLiteral_quote_iff (cs cs' : List Char) (bs bs' : Bytes) :
    (IsLiteral (quoteText cs) (Utf8.encode cs) ↔ Clear (Utf8.encode cs)) ∧
      (IsLiteral (quoteBytes bs) bs ↔ Clear bs) ∧
        (Clear (Utf8.encode cs) → Clear (Utf8.encode cs') → quoteText cs = quoteText cs' → cs = cs') ∧
          (Clear bs → Clear bs' → quoteBytes bs = quoteBytes bs' → bs = bs') ∧
            (Clear (Utf8.encode cs) → Clear bs → quoteText cs = quoteBytes bs → Utf8.encode cs = bs) := by
  refine ⟨isLiteral_quoteText_iff cs, isLiteral_quoteBytes_iff bs, fun h h' heq => ?_, fun h h' heq => ?_,
    fun h h' heq => ?_⟩
  · have hread := (isLiteral_quoteText_iff cs).2 h
    rw [heq] at hread
    exact Utf8.encode_inj (hread.unique ((isLiteral_quoteText_iff cs').2 h'))
  · have hread := (isLiteral_quoteBytes_iff bs).2 h
    rw [heq] at hread
    exact hread.unique ((isLiteral_quoteBytes_iff bs').2 h')
  · have hread := (isLiteral_quoteText_iff cs).2 h
    rw [heq] at hread
    exact hread.unique ((isLiteral_quoteBytes_iff bs).2 h')

/-- A digit behind a byte outside of ASCII or behind a bell does no harm. -/
theorem isLiteral_quote_three_digits :
    Clear [255, 49] ∧ Clear [7, 49] ∧ IsLiteral (quoteBytes [255, 49]) [255, 49] ∧
      quoteBytes [255, 49] ≠ quoteBytes [7, 49] := by
  have hclear : Clear [255, 49] ∧ Clear [7, 49] := by decide
  obtain ⟨-, hread, -, hinj, -⟩ := isLiteral_quote_iff [] [] [255, 49] [7, 49]
  exact ⟨hclear.1, hclear.2, hread.2 hclear.1, fun h => absurd (hinj hclear.1 hclear.2 h) (by decide)⟩

/-- The digit behind the control with the number 1 becomes part of its escape, which is then that of the control 14. -/
theorem not_isLiteral_quote_control :
    ¬ IsLiteral (quoteText ['\x01', '4']) (Utf8.encode ['\x01', '4']) ∧
      quoteText ['\x01', '4'] = quoteText ['\x0E'] := by
  refine ⟨?_, by decide⟩
  rw [isLiteral_quoteText_iff]
  decide

end Scratchpad.Inspect
