import Mathlib.Tactic.SplitIfs
import Scratchpad.Text.Utf8

/-!
# UTF-8 there and back

The bytes of a character are read as this character, whatever follows them (`scan_encodeChar`, one lemma for each number
of bytes). Main statements: the bytes of a text are well-formed and stand for this text only (`decode_encode`,
`encode_inj`), and bytes that are read as a text are those of the text (`encode_of_decode`).
-/

namespace Scratchpad.Text.Utf8

theorem toNat_toUInt8 {n : Nat} (h : n < 256) : n.toUInt8.toNat = n := by
  rw [Nat.toUInt8_eq, UInt8.toNat_ofNat', Nat.mod_eq_of_lt h]

theorem isTail_toUInt8 {k : Nat} (h : k < 0x40) : isTail (0x80 + k).toUInt8 = true := by
  have hnat := toNat_toUInt8 (n := 0x80 + k) (by omega)
  simp only [isTail, Bool.and_eq_true, decide_eq_true_eq, UInt8.le_iff_toNat_le, hnat]
  exact ⟨Nat.le_add_right _ _, by change 0x80 + k ≤ 0xBF; omega⟩

/-- A byte in the range that a first byte leaves open. -/
theorem in_range {l : Lead} {k : Nat} (hlow : l.low.toNat ≤ 0x80 + k) (hhigh : 0x80 + k ≤ l.high.toNat) :
    (l.low ≤ (0x80 + k).toUInt8 && (0x80 + k).toUInt8 ≤ l.high) = true := by
  have hbound : l.high.toNat < 256 := l.high.toNat_lt
  have hnat := toNat_toUInt8 (n := 0x80 + k) (by omega)
  simp only [Bool.and_eq_true, decide_eq_true_eq, UInt8.le_iff_toNat_le, hnat]
  exact ⟨hlow, hhigh⟩

theorem scanTail_one {k : Nat} (h : k < 0x40) (got bits : Nat) (rest : List UInt8) :
    scanTail 1 got bits ((0x80 + k).toUInt8 :: rest) = .char (Char.ofNat (bits * 0x40 + k)) (got + 1) := by
  rw [scanTail, if_pos (isTail_toUInt8 h), scanTail, toNat_toUInt8 (by omega), Nat.add_sub_cancel_left]

theorem scanTail_two {j k : Nat} (hj : j < 0x40) (hk : k < 0x40) (got bits : Nat) (rest : List UInt8) :
    scanTail 2 got bits ((0x80 + j).toUInt8 :: (0x80 + k).toUInt8 :: rest) =
      .char (Char.ofNat ((bits * 0x40 + j) * 0x40 + k)) (got + 2) := by
  rw [scanTail, if_pos (isTail_toUInt8 hj), toNat_toUInt8 (by omega), Nat.add_sub_cancel_left, scanTail_one hk]

/-! ## First bytes -/

theorem lead?_one {n : Nat} (h : n < 0x80) : lead? n.toUInt8 = some ⟨0, n, 0x80, 0xBF⟩ := by
  rw [lead?, toNat_toUInt8 (by omega)]
  exact if_pos h

theorem lead?_two {k : Nat} (h : 2 ≤ k ∧ k < 0x20) : lead? (0xC0 + k).toUInt8 = some ⟨1, k, 0x80, 0xBF⟩ := by
  rw [lead?, toNat_toUInt8 (by omega)]
  rw [if_neg (by omega), if_pos (by omega), Nat.add_sub_cancel_left]

/-- The first of three bytes, and the range of the second. -/
theorem lead?_three {k : Nat} (h : k < 0x10) : ∃ l, lead? (0xE0 + k).toUInt8 = some l ∧ l.follow = 2 ∧ l.bits = k ∧
    l.low.toNat = (if k = 0 then 0xA0 else 0x80) ∧ l.high.toNat = if k = 0xD then 0x9F else 0xBF := by
  rw [lead?, toNat_toUInt8 (by omega)]
  rw [if_neg (by omega), if_neg (by omega)]
  by_cases h0 : k = 0
  · subst h0
    exact ⟨_, rfl, rfl, rfl, rfl, rfl⟩
  · by_cases hd : k = 0xD
    · subst hd
      exact ⟨_, rfl, rfl, rfl, rfl, rfl⟩
    · rw [if_neg (by omega), if_neg (by omega), if_pos (by omega), if_neg h0, if_neg hd, Nat.add_sub_cancel_left]
      exact ⟨_, rfl, rfl, rfl, rfl, rfl⟩

/-- The first of four bytes, and the range of the second. -/
theorem lead?_four {k : Nat} (h : k < 5) : ∃ l, lead? (0xF0 + k).toUInt8 = some l ∧ l.follow = 3 ∧ l.bits = k ∧
    l.low.toNat = (if k = 0 then 0x90 else 0x80) ∧ l.high.toNat = if k = 4 then 0x8F else 0xBF := by
  rcases (by omega : k = 0 ∨ k = 1 ∨ k = 2 ∨ k = 3 ∨ k = 4) with rfl | rfl | rfl | rfl | rfl
  all_goals exact ⟨_, rfl, rfl, rfl, rfl, rfl⟩

/-! ## Characters -/

theorem toNat_range (c : Char) : c.toNat < 0xD800 ∨ 0xDFFF < c.toNat ∧ c.toNat < 0x110000 := c.valid

/-- The bytes of a character that is not ASCII are not ASCII. -/
theorem le_of_mem_encodeChar {c : Char} (h : 0x80 ≤ c.toNat) {b : UInt8} (hb : b ∈ encodeChar c) : 0x80 ≤ b.toNat := by
  have hrange := toNat_range c
  have hbyte : ∀ {n : Nat}, 0x80 ≤ n → n < 0x100 → 0x80 ≤ n.toUInt8.toNat := fun hn hlt => by
    rwa [toNat_toUInt8 hlt]
  rw [encodeChar, if_neg (show ¬ c.toNat < 0x80 by omega)] at hb
  split at hb
  · simp only [List.mem_cons, List.not_mem_nil, or_false] at hb
    rcases hb with rfl | rfl
    all_goals exact hbyte (by omega) (by omega)
  · split at hb
    · simp only [List.mem_cons, List.not_mem_nil, or_false] at hb
      rcases hb with rfl | rfl | rfl
      all_goals exact hbyte (by omega) (by omega)
    · simp only [List.mem_cons, List.not_mem_nil, or_false] at hb
      rcases hb with rfl | rfl | rfl | rfl
      all_goals exact hbyte (by omega) (by omega)

/-- The bytes of a character are read as the character. -/
theorem scan_encodeChar (c : Char) (rest : List UInt8) :
    ∃ b bs, encodeChar c = b :: bs ∧ scan b (bs ++ rest) = .char c (bs.length + 1) := by
  have hrange := toNat_range c
  have hself : Char.ofNat c.toNat = c := Char.ofNat_toNat c
  by_cases h1 : c.toNat < 0x80
  · refine ⟨_, [], by rw [encodeChar, if_pos h1], ?_⟩
    rw [scan, lead?_one h1]
    dsimp only
    rw [if_pos rfl, hself]
    rfl
  · by_cases h2 : c.toNat < 0x800
    · refine ⟨_, _, by rw [encodeChar, if_neg h1, if_pos h2], ?_⟩
      rw [scan, lead?_two (by omega)]
      dsimp only [List.cons_append]
      rw [if_neg (by decide), if_pos (in_range (l := ⟨1, c.toNat / 0x40, 0x80, 0xBF⟩) (Nat.le_add_right _ _)
        (by change _ ≤ 0xBF; omega)), scanTail, toNat_toUInt8 (by omega), Nat.add_sub_cancel_left, Nat.div_add_mod', hself]
      rfl
    · by_cases h3 : c.toNat < 0x10000
      · refine ⟨_, _, by rw [encodeChar, if_neg h1, if_neg h2, if_pos h3], ?_⟩
        obtain ⟨l, hl, hfollow, hbits, hlow, hhigh⟩ := lead?_three (k := c.toNat / 0x1000) (by omega)
        rw [scan, hl]
        dsimp only [List.cons_append]
        have hin := in_range (l := l) (k := c.toNat / 0x40 % 0x40) (by rw [hlow]; split <;> omega)
          (by rw [hhigh]; split <;> omega)
        rw [hfollow, if_neg (by decide), if_pos hin, hbits, toNat_toUInt8 (by omega), Nat.add_sub_cancel_left,
          scanTail_one (by omega)]
        have hnat : (c.toNat / 0x1000 * 0x40 + c.toNat / 0x40 % 0x40) * 0x40 + c.toNat % 0x40 = c.toNat := by omega
        rw [hnat, hself]
        rfl
      · refine ⟨_, _, by rw [encodeChar, if_neg h1, if_neg h2, if_neg h3], ?_⟩
        obtain ⟨l, hl, hfollow, hbits, hlow, hhigh⟩ := lead?_four (k := c.toNat / 0x40000) (by omega)
        rw [scan, hl]
        dsimp only [List.cons_append]
        have hin := in_range (l := l) (k := c.toNat / 0x1000 % 0x40) (by rw [hlow]; split <;> omega)
          (by rw [hhigh]; split <;> omega)
        rw [hfollow, if_neg (by decide), if_pos hin, hbits, toNat_toUInt8 (by omega), Nat.add_sub_cancel_left,
          scanTail_two (by omega) (by omega)]
        have hnat : ((c.toNat / 0x40000 * 0x40 + c.toNat / 0x1000 % 0x40) * 0x40 + c.toNat / 0x40 % 0x40) * 0x40 +
            c.toNat % 0x40 = c.toNat := by omega
        rw [hnat, hself]
        rfl

/-! ## Texts -/

theorem decodeFrom_encode (cs : List Char) (position : Nat) : decodeFrom position (encode cs) = .ok cs := by
  induction cs generalizing position with
  | nil => rw [encode, List.flatMap_nil, decodeFrom]
  | cons c cs ih =>
    obtain ⟨b, bs, hc, hscan⟩ := scan_encodeChar c (encode cs)
    rw [encode, List.flatMap_cons, ← encode, hc, List.cons_append, decodeFrom, hscan]
    dsimp only
    rw [Nat.add_sub_cancel, List.drop_left, ih]
    rfl

/-- The bytes of a text are read as the text. -/
theorem decode_encode (cs : List Char) : decode (encode cs) = .ok cs :=
  decodeFrom_encode cs 0

/-- Texts with the same bytes are the same. -/
theorem encode_inj {cs ds : List Char} (h : encode cs = encode ds) : cs = ds := by
  have hcs := decode_encode cs
  rw [h, decode_encode ds] at hcs
  exact (Except.ok.inj hcs).symm

/-! ## Well-formed bytes -/

theorem toNat_ofNat {n : Nat} (h : n < 0xD800 ∨ 0xDFFF < n ∧ n < 0x110000) : (Char.ofNat n).toNat = n := by
  have hvalid : n.isValidChar := h
  rw [Char.ofNat, dif_pos hvalid]
  rfl

theorem toUInt8_eq {n : Nat} {b : UInt8} (h : n = b.toNat) : n.toUInt8 = b := by
  rw [h]
  exact UInt8.ofNat_toNat

/-- What reading one more continuation byte needs and does. -/
theorem scanTail_succ {k got bits n : Nat} {c : Char} {bs : List UInt8}
    (h : scanTail (k + 1) got bits bs = .char c n) : ∃ b bs' j, bs = b :: bs' ∧ b.toNat = 0x80 + j ∧ j < 0x40 ∧
      scanTail k (got + 1) (bits * 0x40 + j) bs' = .char c n := by
  cases bs with
  | nil => simp [scanTail] at h
  | cons b bs =>
    rw [scanTail] at h
    split at h
    · rename_i htail
      simp only [isTail, Bool.and_eq_true, decide_eq_true_eq, UInt8.le_iff_toNat_le] at htail
      have hlow : 0x80 ≤ b.toNat := htail.1
      have hhigh : b.toNat ≤ 0xBF := htail.2
      exact ⟨b, bs, b.toNat - 0x80, rfl, by omega, by omega, h⟩
    · cases h

/-- What a first byte promises, by the number of bytes that follow it. -/
theorem lead?_eq_some {b : UInt8} {l : Lead} (h : lead? b = some l) :
    (l.follow = 0 ∧ l.bits = b.toNat ∧ b.toNat < 0x80) ∨
      (0x80 ≤ l.low.toNat ∧ l.high.toNat ≤ 0xBF) ∧
        ((l.follow = 1 ∧ b.toNat = 0xC0 + l.bits ∧ 2 ≤ l.bits ∧ l.bits < 0x20) ∨
          (l.follow = 2 ∧ b.toNat = 0xE0 + l.bits ∧ l.bits < 0x10 ∧ (l.bits = 0 → 0xA0 ≤ l.low.toNat) ∧
            (l.bits = 0xD → l.high.toNat ≤ 0x9F)) ∨
          (l.follow = 3 ∧ b.toNat = 0xF0 + l.bits ∧ l.bits < 5 ∧ (l.bits = 0 → 0x90 ≤ l.low.toNat) ∧
            (l.bits = 4 → l.high.toNat ≤ 0x8F))) := by
  have hmin : (0x80 : UInt8).toNat = 0x80 := rfl
  have hmax : (0xBF : UInt8).toNat = 0xBF := rfl
  rw [lead?] at h
  split_ifs at h <;> obtain rfl := Option.some.inj h <;> simp <;> omega

theorem scan_eq_char {b : UInt8} {bs : List UInt8} {c : Char} {n : Nat} (h : scan b bs = .char c n) :
    b :: bs = encodeChar c ++ bs.drop (n - 1) := by
  rw [scan] at h
  split at h
  · cases h
  rename_i l hlead
  rcases lead?_eq_some hlead with ⟨hfollow, hbits, hb⟩ | ⟨⟨hlow, hhigh⟩, hmore⟩
  · rw [if_pos hfollow] at h
    obtain ⟨rfl, rfl⟩ : Char.ofNat l.bits = c ∧ 1 = n := by simpa using h
    rw [hbits, encodeChar, toNat_ofNat (by omega), if_pos hb, toUInt8_eq rfl]
    rfl
  · rw [if_neg (by omega)] at h
    cases bs with
    | nil => cases h
    | cons b₂ bs =>
      dsimp only at h
      split at h
      · rename_i hrange
        simp only [Bool.and_eq_true, decide_eq_true_eq, UInt8.le_iff_toNat_le] at hrange
        obtain ⟨h₂low, h₂high⟩ := hrange
        rcases hmore with ⟨hfollow, hb, h2, hlt⟩ | ⟨hfollow, hb, hlt, hzero, htop⟩ | ⟨hfollow, hb, hlt, hzero, htop⟩
        · rw [hfollow, Nat.sub_self, scanTail] at h
          obtain ⟨rfl, rfl⟩ : Char.ofNat (l.bits * 64 + (b₂.toNat - 128)) = c ∧ 2 = n := by simpa using h
          rw [encodeChar, toNat_ofNat (by omega), if_neg (by omega), if_pos (by omega), toUInt8_eq (b := b) (by omega),
            toUInt8_eq (b := b₂) (by omega)]
          rfl
        · rw [hfollow] at h
          obtain ⟨b₃, bs, j, rfl, hb₃, hj, htail⟩ := scanTail_succ h
          rw [scanTail] at htail
          obtain ⟨rfl, rfl⟩ : Char.ofNat ((l.bits * 64 + (b₂.toNat - 128)) * 64 + j) = c ∧ 3 = n := by simpa using htail
          rw [encodeChar, toNat_ofNat (by omega), if_neg (by omega), if_neg (by omega), if_pos (by omega),
            toUInt8_eq (b := b) (by omega), toUInt8_eq (b := b₂) (by omega), toUInt8_eq (b := b₃) (by omega)]
          rfl
        · rw [hfollow] at h
          obtain ⟨b₃, bs, i, rfl, hb₃, hi, htail⟩ := scanTail_succ h
          obtain ⟨b₄, bs, j, rfl, hb₄, hj, hend⟩ := scanTail_succ htail
          rw [scanTail] at hend
          obtain ⟨rfl, rfl⟩ : Char.ofNat (((l.bits * 64 + (b₂.toNat - 128)) * 64 + i) * 64 + j) = c ∧ 4 = n := by
            simpa using hend
          rw [encodeChar, toNat_ofNat (by omega), if_neg (by omega), if_neg (by omega), if_neg (by omega),
            toUInt8_eq (b := b) (by omega), toUInt8_eq (b := b₂) (by omega), toUInt8_eq (b := b₃) (by omega),
            toUInt8_eq (b := b₄) (by omega)]
          rfl
      · cases h

/-- Bytes that are read as a text are those of the text. -/
theorem encode_of_decodeFrom {position : Nat} {bs : List UInt8} {cs : List Char}
    (h : decodeFrom position bs = .ok cs) : encode cs = bs := by
  fun_induction decodeFrom position bs generalizing cs with
  | case1 position =>
    cases h
    rfl
  | case2 position b bs c n hscan ih =>
    obtain ⟨ds, hds, rfl⟩ : ∃ ds, decodeFrom (position + n) (bs.drop (n - 1)) = .ok ds ∧ c :: ds = cs := by
      cases hrest : decodeFrom (position + n) (bs.drop (n - 1)) with
      | error m =>
        rw [hrest] at h
        cases h
      | ok ds =>
        rw [hrest] at h
        exact ⟨ds, rfl, Except.ok.inj h⟩
    rw [encode, List.flatMap_cons, ← encode, ih hds, ← scan_eq_char hscan]
  | case3 position b bs fault n hscan => cases h

theorem encode_of_decode {bs : List UInt8} {cs : List Char} (h : decode bs = .ok cs) : encode cs = bs :=
  encode_of_decodeFrom h

end Scratchpad.Text.Utf8
