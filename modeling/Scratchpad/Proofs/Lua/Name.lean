import Scratchpad.Lua.Name
import Scratchpad.Proofs.Lua.Lexer.Lines
import Scratchpad.Text.Blank

/-!
# Names as bytes

A name has the same form as a text and as bytes. Main statement: an identifier is read as one name
(`isName_of_isIdentifier`), and a reserved word is not (`wordToken_ne_name`).
-/

namespace Scratchpad.Lua

open Text Lexer

/-! ## Texts as bytes -/

theorem encode_append (cs ds : List Char) : Utf8.encode (cs ++ ds) = Utf8.encode cs ++ Utf8.encode ds :=
  List.flatMap_append

theorem encode_cons (c : Char) (cs : List Char) : Utf8.encode (c :: cs) = Utf8.encodeChar c ++ Utf8.encode cs :=
  List.flatMap_cons

theorem bytes_ofList (cs : List Char) : bytes (String.ofList cs) = Utf8.encode cs := by
  rw [bytes, Utf8.ofString, String.toList_ofList]

theorem bytes_append (s t : String) : bytes (s ++ t) = bytes s ++ bytes t := by
  rw [bytes, Utf8.ofString, String.toList_append, encode_append]
  rfl

/-- The byte of an ASCII character. -/
theorem encodeChar_ascii {c : Char} (h : c.toNat < 128) : Utf8.encodeChar c = [byte c] := by
  rw [Utf8.encodeChar, if_pos (show c.toNat < 0x80 from h)]
  rfl

theorem toNat_byte {c : Char} (h : c.toNat < 128) : (byte c).toNat = c.toNat := by
  rw [byte, Nat.toUInt8, UInt8.toNat_ofNat']
  omega

theorem encode_ascii {cs : List Char} (h : ∀ c ∈ cs, c.toNat < 128) : Utf8.encode cs = cs.map byte := by
  induction cs with
  | nil => rfl
  | cons c cs ih =>
    rw [encode_cons, encodeChar_ascii (h c List.mem_cons_self), ih fun d hd => h d (List.mem_cons_of_mem c hd)]
    rfl

theorem map_byte_injective {cs ds : List Char} (hc : ∀ c ∈ cs, c.toNat < 128) (hd : ∀ d ∈ ds, d.toNat < 128)
    (h : cs.map byte = ds.map byte) : cs = ds := by
  induction cs generalizing ds with
  | nil => exact (List.map_eq_nil_iff.1 h.symm).symm
  | cons c cs ih =>
    cases ds with
    | nil => cases h
    | cons d ds =>
      obtain ⟨hbyte, hrest⟩ := List.cons.inj h
      have hnat := congrArg UInt8.toNat hbyte
      rw [toNat_byte (hc c List.mem_cons_self), toNat_byte (hd d List.mem_cons_self)] at hnat
      have hchar : c = d := Char.toNat_inj.1 hnat
      rw [hchar, ih (fun e he => hc e (List.mem_cons_of_mem c he)) (fun e he => hd e (List.mem_cons_of_mem d he)) hrest]

/-! ## Words -/

theorem lt_of_isNameRest {c : Char} (h : isNameRest c = true) : c.toNat < 128 := by
  delta isNameRest Char.isAlphanum Char.isAlpha Char.isUpper Char.isLower Char.isDigit at h
  simp only [Bool.or_eq_true, Bool.and_eq_true, decide_eq_true_eq, beq_iff_eq, ge_iff_le,
    UInt32.le_iff_toNat_le] at h
  rcases h with ((⟨-, h⟩ | ⟨-, h⟩) | ⟨-, h⟩) | rfl
  · exact Nat.lt_of_le_of_lt h (by decide)
  · exact Nat.lt_of_le_of_lt h (by decide)
  · exact Nat.lt_of_le_of_lt h (by decide)
  · decide

theorem isNameRest_of_isNameStart {c : Char} (h : isNameStart c = true) : isNameRest c = true := by
  rw [isNameStart, Bool.or_eq_true] at h
  rw [isNameRest, Char.isAlphanum]
  rcases h with h | h <;> rw [h] <;> simp

/-- The classes of ASCII characters are those of their bytes. -/
theorem class_byte {c : Char} (h : c.toNat < 128) : Byte.isNameStart (byte c) = isNameStart c ∧
    Byte.isNameRest (byte c) = isNameRest c ∧ Byte.isSpace (byte c) = (c.toNat == 32 || 9 ≤ c.toNat && c.toNat ≤ 13) := by
  have hall : ∀ n < 128, Byte.isNameStart (byte (Char.ofNat n)) = isNameStart (Char.ofNat n) ∧
      Byte.isNameRest (byte (Char.ofNat n)) = isNameRest (Char.ofNat n) ∧
      Byte.isSpace (byte (Char.ofNat n)) = ((Char.ofNat n).toNat == 32 || 9 ≤ (Char.ofNat n).toNat &&
        (Char.ofNat n).toNat ≤ 13) := by
    decide +kernel
  have hc := hall c.toNat h
  rwa [Char.ofNat_toNat] at hc

theorem isNameStart_byte {c : Char} (h : isNameStart c = true) : Byte.isNameStart (byte c) = true :=
  (class_byte (lt_of_isNameRest (isNameRest_of_isNameStart h))).1.trans h

theorem isNameRest_byte {c : Char} (h : isNameRest c = true) : Byte.isNameRest (byte c) = true :=
  (class_byte (lt_of_isNameRest h)).2.1.trans h

theorem mem_isWord {cs : List Char} (h : isWord cs = true) : ∀ c ∈ cs, isNameRest c = true := by
  cases cs with
  | nil => simp
  | cons c cs =>
    rw [isWord, Bool.and_eq_true, List.all_eq_true] at h
    intro d hd
    rcases List.mem_cons.1 hd with rfl | hd
    · exact isNameRest_of_isNameStart h.1
    · exact h.2 d hd

theorem encode_word {cs : List Char} (h : isWord cs = true) : Utf8.encode cs = cs.map byte :=
  encode_ascii fun c hc => lt_of_isNameRest (mem_isWord h c hc)

theorem isWord_encode {cs : List Char} (h : isWord cs = true) : Lexer.IsWord (Utf8.encode cs) := by
  rw [encode_word h]
  refine ⟨?_, fun b hb => ?_⟩
  · cases cs with
    | nil => cases h
    | cons c cs =>
      rw [isWord, Bool.and_eq_true] at h
      exact ⟨byte c, cs.map byte, rfl, isNameStart_byte h.1⟩
  · obtain ⟨c, hc, rfl⟩ := List.mem_map.1 hb
    exact isNameRest_byte (mem_isWord h c hc)

/-! ## Reserved words -/

theorem reservedWords_eq : reservedWords = Keyword.all.map Keyword.text := by
  decide

theorem isWord_text (k : Keyword) : isWord k.text.toList = true := by
  cases k <;> decide

/-- A word is looked up as one of the reserved words. -/
theorem lookup_encode {cs : List Char} (h : isWord cs = true) :
    Keyword.table.lookup (Utf8.encode cs) = none ↔ reservedWords.contains (String.ofList cs) = false := by
  have hword : ∀ k : Keyword, Utf8.encode cs = bytes k.text ↔ String.ofList cs = k.text := by
    intro k
    constructor
    · intro heq
      have hk := isWord_text k
      rw [bytes, Utf8.ofString, encode_word h, encode_word hk] at heq
      have hchars := map_byte_injective (fun c hc => lt_of_isNameRest (mem_isWord h c hc))
        (fun c hc => lt_of_isNameRest (mem_isWord hk c hc)) heq
      rw [hchars, String.ofList_toList]
    · rintro heq
      rw [← heq, bytes_ofList]
  rw [Keyword.table, List.lookup_eq_none_iff, List.contains_eq_mem, decide_eq_false_iff_not, reservedWords_eq,
    List.mem_map, List.forall_mem_map]
  constructor
  · rintro h ⟨k, hk, heq⟩
    exact absurd ((hword k).2 heq.symm) (by simpa using h k hk)
  · intro h k hk
    simpa using fun heq => h ⟨k, hk, ((hword k).1 heq).symm⟩

/-- An identifier is read as one name. -/
theorem isName_of_isIdentifier {cs : List Char} (h : isIdentifier (String.ofList cs) = true) :
    IsName (Utf8.encode cs) := by
  rw [isIdentifier, Bool.and_eq_true, String.toList_ofList, Bool.not_eq_true'] at h
  refine ⟨isWord_encode h.1, ?_⟩
  rw [wordToken, (lookup_encode h.1).2 h.2]

/-- A reserved word is not read as a name. -/
theorem wordToken_ne_name {cs : List Char} (h : isWord cs = true) (hres : isIdentifier (String.ofList cs) = false)
    (w : Bytes) : wordToken (Utf8.encode cs) ≠ .name w := by
  have hsome : Keyword.table.lookup (Utf8.encode cs) ≠ none := by
    rw [ne_eq, lookup_encode h, Bool.not_eq_false]
    rw [isIdentifier, String.toList_ofList, h, Bool.true_and, Bool.not_eq_false'] at hres
    exact hres
  obtain ⟨k, hk⟩ := Option.ne_none_iff_exists'.1 hsome
  rw [wordToken, hk]
  simp

theorem wordToken_ne_sym (raw : Bytes) (s : Sym) : wordToken raw ≠ .sym s := by
  unfold wordToken
  split <;> simp

/-! ## White space -/

/-- Bytes that begin white space characters but no token. -/
def strayBytes : Bytes :=
  [28, 29, 30, 31, 0xC2, 0xE1, 0xE2, 0xE3]

theorem next_stray {b : UInt8} (hb : b ∈ strayBytes) (line : Nat) (r : Bytes) :
    next line (b :: r) = .token ⟨.stray b, [], line⟩ r := by
  simp only [strayBytes, List.mem_cons, List.not_mem_nil, or_false] at hb
  rcases hb with rfl | rfl | rfl | rfl | rfl | rfl | rfl | rfl <;> rfl

/-- White space of a text is white space of the program or begins with a stray byte. -/
theorem encodeChar_space {c : Char} (h : isSpace c = true) :
    (∃ b, Utf8.encodeChar c = [b] ∧ Byte.isSpace b = true) ∨ ∃ b ∈ strayBytes, ∃ r, Utf8.encodeChar c = b :: r := by
  have hall : ∀ n ∈ spaceRanges.flatMap fun r => List.range' r.1 (r.2 + 1 - r.1),
      (Utf8.encodeChar (Char.ofNat n)).length = 1 ∧ (Utf8.encodeChar (Char.ofNat n)).all Byte.isSpace = true ∨
        ∃ b ∈ strayBytes, (Utf8.encodeChar (Char.ofNat n)).head? = some b := by
    decide +kernel
  have hmem : c.toNat ∈ spaceRanges.flatMap fun r => List.range' r.1 (r.2 + 1 - r.1) := by
    rw [isSpace, List.any_eq_true] at h
    obtain ⟨r, hr, hc⟩ := h
    rw [Bool.and_eq_true, decide_eq_true_eq, decide_eq_true_eq] at hc
    rw [List.mem_flatMap]
    exact ⟨r, hr, List.mem_range'_1.2 ⟨hc.1, by omega⟩⟩
  have hc := hall c.toNat hmem
  rw [Char.ofNat_toNat] at hc
  rcases hc with ⟨hlen, hspace⟩ | ⟨b, hb, hhead⟩
  · obtain ⟨b, hb⟩ := List.length_eq_one_iff.1 hlen
    rw [hb] at hspace
    exact .inl ⟨b, hb, by simpa using hspace⟩
  · obtain ⟨r, hr⟩ := List.head?_eq_some_iff.1 hhead
    exact .inr ⟨b, hb, r, hr⟩

theorem stray_lexed {b : UInt8} (hb : b ∈ strayBytes) (line : Nat) (r : Bytes) :
    Parser.Stray (lexed line (b :: r)).1 := by
  rw [lexed_token (next_stray hb line r) (by simp)]
  exact ⟨b, rfl⟩

/-- White space before a text is skipped, or it holds a stray byte. -/
theorem lexed_gap {y : Bytes} (hy : ∀ b ∈ y.head?, Byte.isSpace b = false) : ∀ {w : List Char}, (∀ c ∈ w, isSpace c = true) → ∀ line,
    Parser.Stray (lexed line (Utf8.encode w ++ y)).1 ∨ ∃ last, lexed line (Utf8.encode w ++ y) = lexed last y
  | [], _, line => .inr ⟨line, rfl⟩
  | c :: w, hw, line => by
    have hrest : ∀ c ∈ w, isSpace c = true := fun d hd => hw d (List.mem_cons_of_mem c hd)
    rw [encode_cons, List.append_assoc]
    rcases encodeChar_space (hw c List.mem_cons_self) with ⟨b, hb, hspace⟩ | ⟨b, hb, r, hr⟩
    · rw [hb, List.singleton_append]
      by_cases hnewline : Byte.isNewline b = true
      · have hnext : next line (b :: (Utf8.encode w ++ y)) = .skip (line + 1) (afterNewline (b :: (Utf8.encode w ++ y))) := by
          rw [next, if_pos hnewline]
        rw [lexed_skip hnext, afterNewline_cons]
        split
        · rename_i hpair
          have hhead : ∀ b' ∈ (Utf8.encode w ++ y).head?, Byte.isSpace b' = true ∧ b' ∉ strayBytes := by
            rcases hpair with ⟨-, hb'⟩ | ⟨-, hb'⟩ <;> (intro b' hmem; rw [hb'] at hmem; cases hmem; decide)
          cases w with
          | nil => rcases hpair with ⟨-, hb⟩ | ⟨-, hb⟩ <;> exact absurd (hy _ hb) (by decide)
          | cons c' w =>
            rw [encode_cons, List.append_assoc] at hhead ⊢
            rcases encodeChar_space (hrest c' List.mem_cons_self) with ⟨b', hb', -⟩ | ⟨b', hb', r, hr⟩
            · rw [hb']
              exact lexed_gap hy (fun d hd => hrest d (List.mem_cons_of_mem c' hd)) (line + 1)
            · rw [hr] at hhead
              exact absurd hb' (hhead b' rfl).2
        · exact lexed_gap hy hrest (line + 1)
      · have hnext : next line (b :: (Utf8.encode w ++ y)) = .skip line (Utf8.encode w ++ y) := by
          rw [next, if_neg hnewline, if_pos hspace]
        rw [lexed_skip hnext]
        exact lexed_gap hy hrest line
    · rw [hr]
      exact .inl (stray_lexed hb line _)

/-- The first byte of a character that is not ASCII. -/
theorem encodeChar_lead {c : Char} (h : 128 ≤ c.toNat) : ∃ b r, Utf8.encodeChar c = b :: r ∧ 192 ≤ b.toNat := by
  have hmax : c.toNat < 0x110000 := by
    rcases c.valid with hlow | ⟨-, hhigh⟩
    · exact Nat.lt_trans hlow (by decide)
    · exact hhigh
  have hbyte : ∀ {n : Nat}, 192 ≤ n → n < 256 → 192 ≤ n.toUInt8.toNat := by
    intro n hn hlt
    rw [Nat.toUInt8, UInt8.toNat_ofNat']
    omega
  rw [Utf8.encodeChar, if_neg (show ¬ c.toNat < 0x80 by omega)]
  split_ifs
  · exact ⟨_, _, rfl, hbyte (by omega) (by omega)⟩
  · exact ⟨_, _, rfl, hbyte (by omega) (by omega)⟩
  · exact ⟨_, _, rfl, hbyte (by omega) (by omega)⟩

theorem isNameRest_of_le {b : UInt8} (h : 192 ≤ b.toNat) : Byte.isNameRest b = false := by
  refine Bool.eq_false_iff.2 fun hrest => ?_
  simp only [Byte.isNameRest, Byte.isNameStart, Byte.isAlpha, Byte.isUpper, Byte.isLower, Byte.isDigit,
    Bool.or_eq_true, Bool.and_eq_true, decide_eq_true_eq, beq_iff_eq, UInt8.le_iff_toNat_le] at hrest
  rcases hrest with ((⟨-, hZ⟩ | ⟨-, hz⟩) | rfl) | ⟨-, h9⟩
  · exact absurd (Nat.le_trans h hZ) (by decide)
  · exact absurd (Nat.le_trans h hz) (by decide)
  · exact absurd h (by decide)
  · exact absurd (Nat.le_trans h h9) (by decide)

/-- No word goes on behind a character that belongs to none. -/
theorem ends_encode {c : Char} (h : isNameRest c = false) (cs : List Char) (y : Bytes) :
    Ends (Utf8.encode (c :: cs) ++ y) := by
  rw [encode_cons, List.append_assoc]
  by_cases hc : c.toNat < 128
  · rw [encodeChar_ascii hc]
    rintro b hb
    cases hb
    exact (class_byte hc).2.1.trans h
  · obtain ⟨b, r, hr, hle⟩ := encodeChar_lead (Nat.le_of_not_lt hc)
    rw [hr]
    rintro b' hb'
    cases hb'
    exact isNameRest_of_le hle

theorem ends_gap {w : List Char} (hne : w ≠ []) (hw : ∀ c ∈ w, isSpace c = true) (y : Bytes) :
    Ends (Utf8.encode w ++ y) := by
  obtain ⟨c, w, rfl⟩ := List.exists_cons_of_ne_nil hne
  rw [encode_cons, List.append_assoc]
  rcases encodeChar_space (hw c List.mem_cons_self) with ⟨b, hb, hspace⟩ | ⟨b, hb, r, hr⟩
  · rw [hb]
    rintro b' hb'
    cases hb'
    refine Bool.eq_false_iff.2 fun hrest => ?_
    rw [isSpace_of_isNameRest hrest] at hspace
    cases hspace
  · rw [hr]
    rintro b' hb'
    cases hb'
    have hstray : strayBytes.all (fun b => !Byte.isNameRest b) = true := by decide
    simpa using List.all_eq_true.1 hstray b hb

end Scratchpad.Lua
