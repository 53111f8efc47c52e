import Scratchpad.Inspect.Value
import Scratchpad.Proofs.Text.Utf8

/-!
# Well-formed and ill-formed bytes

Which bytes are well-formed is said here without a reader or a writer: each number has forms of one to four bytes
(`Form`), and a character is the shortest form of a number that is a code point and no surrogate (`IsCharacter`). Main
statements:

- the bytes of texts are the well-formed ones (`wellFormed_iff`);
- bytes that are read with replacements can be cut in front of any byte that continues no character
  (`decodeLossy_append`), so ill-formed bytes do not damage the text around them;
- byte strings and texts cross the boundary of the interpreter without loss (`Inspect.Value.ofBytes_lossless`).
-/

namespace Scratchpad.Text.Utf8

/-! ## Well-formed bytes -/

/-- A number in so many bytes: the first byte shows how many there are, and every other one holds six bits. -/
inductive Form : Nat → Nat → List UInt8 → Prop where
  | one {a : Nat} (ha : a < 0x80) : Form 1 a [a.toUInt8]
  | two {a b : Nat} (ha : a < 0x20) (hb : b < 0x40) : Form 2 (a * 0x40 + b) [(0xC0 + a).toUInt8, (0x80 + b).toUInt8]
  | three {a b c : Nat} (ha : a < 0x10) (hb : b < 0x40) (hc : c < 0x40) :
    Form 3 ((a * 0x40 + b) * 0x40 + c) [(0xE0 + a).toUInt8, (0x80 + b).toUInt8, (0x80 + c).toUInt8]
  | four {a b c d : Nat} (ha : a < 8) (hb : b < 0x40) (hc : c < 0x40) (hd : d < 0x40) :
    Form 4 (((a * 0x40 + b) * 0x40 + c) * 0x40 + d)
      [(0xF0 + a).toUInt8, (0x80 + b).toUInt8, (0x80 + c).toUInt8, (0x80 + d).toUInt8]

/-- The bytes are a number that is a code point and no surrogate, in its shortest form. -/
structure IsCharacter (bs : List UInt8) (n : Nat) : Prop where
  form : Form bs.length n bs
  shortest {k : Nat} {cs : List UInt8} (h : Form k n cs) : bs.length ≤ k
  noSurrogate : ¬ (0xD800 ≤ n ∧ n ≤ 0xDFFF)
  codePoint : n ≤ 0x10FFFF

/-- The bytes are characters, one after the other. -/
inductive WellFormed : List UInt8 → Prop where
  | nil : WellFormed []
  | append {bs rest : List UInt8} {n : Nat} (h : IsCharacter bs n) (hrest : WellFormed rest) : WellFormed (bs ++ rest)

variable {k n : Nat} {b : UInt8} {bs cs ds : List UInt8}

/-- The numbers with a form of so many bytes. -/
theorem exists_form_iff : (∃ bs, Form k n bs) ↔
    k = 1 ∧ n < 0x80 ∨ k = 2 ∧ n < 0x800 ∨ k = 3 ∧ n < 0x10000 ∨ k = 4 ∧ n < 0x200000 := by
  constructor
  · rintro ⟨bs, h⟩
    cases h <;> omega
  · rintro (⟨rfl, h⟩ | ⟨rfl, h⟩ | ⟨rfl, h⟩ | ⟨rfl, h⟩)
    · exact ⟨_, .one h⟩
    · rw [← Nat.div_add_mod' n 0x40]
      exact ⟨_, .two (by omega) (Nat.mod_lt _ (by decide))⟩
    · rw [← Nat.div_add_mod' n 0x40, ← Nat.div_add_mod' (n / 0x40) 0x40]
      exact ⟨_, .three (by omega) (Nat.mod_lt _ (by decide)) (Nat.mod_lt _ (by decide))⟩
    · rw [← Nat.div_add_mod' n 0x40, ← Nat.div_add_mod' (n / 0x40) 0x40, ← Nat.div_add_mod' (n / 0x40 / 0x40) 0x40]
      exact ⟨_, .four (by omega) (Nat.mod_lt _ (by decide)) (Nat.mod_lt _ (by decide)) (Nat.mod_lt _ (by decide))⟩

/-- A number has at most one form of so many bytes. -/
theorem Form.unique (h : Form k n bs) (h' : Form k n cs) : bs = cs := by
  generalize hm : n = m at h'
  cases h with
  | one ha =>
    cases h' with
    | one ha' => rw [hm]
  | @two a b ha hb =>
    cases h' with
    | @two a' b' ha' hb' =>
      obtain ⟨rfl, rfl⟩ : a = a' ∧ b = b' := by omega
      rfl
  | @three a b c ha hb hc =>
    cases h' with
    | @three a' b' c' ha' hb' hc' =>
      obtain ⟨rfl, rfl, rfl⟩ : a = a' ∧ b = b' ∧ c = c' := by omega
      rfl
  | @four a b c d ha hb hc hd =>
    cases h' with
    | @four a' b' c' d' ha' hb' hc' hd' =>
      obtain ⟨rfl, rfl, rfl, rfl⟩ : a = a' ∧ b = b' ∧ c = c' ∧ d = d' := by omega
      rfl

theorem form_encodeChar (c : Char) : Form (encodeChar c).length c.toNat (encodeChar c) := by
  have hrange := toNat_range c
  have htail : ∀ m, m % 0x40 < 0x40 := fun m => Nat.mod_lt m (by decide)
  by_cases h1 : c.toNat < 0x80
  · rw [encodeChar, if_pos h1]
    exact .one h1
  · by_cases h2 : c.toNat < 0x800
    · have h := Form.two (a := c.toNat / 0x40) (by omega) (htail c.toNat)
      rw [Nat.div_add_mod'] at h
      rwa [encodeChar, if_neg h1, if_pos h2]
    · by_cases h3 : c.toNat < 0x10000
      · have h := Form.three (a := c.toNat / 0x40 / 0x40) (by omega) (htail (c.toNat / 0x40)) (htail c.toNat)
        rw [Nat.div_add_mod', Nat.div_add_mod', Nat.div_div_eq_div_mul] at h
        rwa [encodeChar, if_neg h1, if_neg h2, if_pos h3]
      · have h := Form.four (a := c.toNat / 0x40 / 0x40 / 0x40) (by omega) (htail (c.toNat / 0x40 / 0x40))
          (htail (c.toNat / 0x40)) (htail c.toNat)
        rw [Nat.div_add_mod', Nat.div_add_mod', Nat.div_add_mod', Nat.div_div_eq_div_mul c.toNat 0x40 0x40,
          Nat.div_div_eq_div_mul c.toNat (0x40 * 0x40)] at h
        rwa [encodeChar, if_neg h1, if_neg h2, if_neg h3]

/-- A character is written in its shortest form. -/
theorem length_encodeChar_le {c : Char} (h : Form k c.toNat cs) : (encodeChar c).length ≤ k := by
  have hk := exists_form_iff.1 ⟨cs, h⟩
  unfold encodeChar
  dsimp only
  split
  · simp; omega
  · split
    · simp; omega
    · split <;> simp <;> omega

theorem isCharacter_encodeChar (c : Char) : IsCharacter (encodeChar c) c.toNat where
  form := form_encodeChar c
  shortest := length_encodeChar_le
  noSurrogate h := by
    have hrange := toNat_range c
    omega
  codePoint := by
    have hrange := toNat_range c
    omega

/-- The characters are the bytes that are written for characters. -/
theorem IsCharacter.eq_encodeChar (h : IsCharacter bs n) : bs = encodeChar (Char.ofNat n) := by
  have hn : (Char.ofNat n).toNat = n := by
    have hsurrogate := h.noSurrogate
    have hpoint := h.codePoint
    exact toNat_ofNat (by omega)
  have hform := form_encodeChar (Char.ofNat n)
  have hlength : bs.length = (encodeChar (Char.ofNat n)).length :=
    Nat.le_antisymm (h.shortest (hn ▸ hform)) (length_encodeChar_le (hn.symm ▸ h.form))
  rw [hn, ← hlength] at hform
  exact h.form.unique hform

/-- The well-formed bytes are those of the texts. -/
theorem wellFormed_iff : WellFormed bs ↔ ∃ text, encode text = bs := by
  constructor
  · intro h
    induction h with
    | nil => exact ⟨[], rfl⟩
    | @append cs rest n hc hrest ih =>
      obtain ⟨text, rfl⟩ := ih
      exact ⟨Char.ofNat n :: text, by rw [encode, List.flatMap_cons, ← hc.eq_encodeChar]; rfl⟩
  · rintro ⟨text, rfl⟩
    induction text with
    | nil => exact .nil
    | cons c text ih => exact .append (isCharacter_encodeChar c) ih

theorem decode_eq_ok_iff {text : List Char} : decode bs = .ok text ↔ encode text = bs := by
  constructor
  · exact encode_of_decode
  · rintro rfl
    exact decode_encode text

theorem decode?_eq_some_iff {s : String} : decode? bs = some s ↔ ofString s = bs := by
  rw [ofString, ← decode_eq_ok_iff, decode?]
  cases h : decode bs with
  | error m => simp
  | ok text =>
    simp only [Option.some.injEq, Except.ok.injEq]
    exact ⟨fun hs => by rw [← hs, String.toList_ofList], fun hs => by rw [hs, String.ofList_toList]⟩

/-- Well-formed bytes are read as a text, and no others are. -/
theorem wellFormed_iff_decode? : WellFormed bs ↔ ∃ s, decode? bs = some s := by
  rw [wellFormed_iff]
  constructor
  · rintro ⟨text, htext⟩
    exact ⟨String.ofList text, decode?_eq_some_iff.2 (by rw [ofString, String.toList_ofList, htext])⟩
  · rintro ⟨s, hs⟩
    exact ⟨s.toList, decode?_eq_some_iff.1 hs⟩

/-! ## Ill-formed parts -/

/-- What is read at the front of some bytes, if it is a character, and how many bytes it takes. -/
def Front.read : Front → Option Char × Nat
  | char c n => (some c, n)
  | bad _ n => (none, n)

/-- The character that is shown for what stands at the front of some bytes. -/
def Front.shown (f : Front) : Char :=
  f.read.1.getD replacement

theorem decodeLossy_cons (b : UInt8) (bs : List UInt8) :
    decodeLossy (b :: bs) = (scan b bs).shown :: decodeLossy (bs.drop ((scan b bs).read.2 - 1)) := by
  rw [decodeLossy]
  cases h : scan b bs <;> rfl

theorem length_scanTail_le (k got bits : Nat) (bs : List UInt8) :
    (scanTail k got bits bs).read.2 ≤ got + bs.length := by
  induction k generalizing got bits bs with
  | zero => exact Nat.le_add_right _ _
  | succ k ih =>
    cases bs with
    | nil => exact Nat.le_add_right _ _
    | cons b bs =>
      rw [scanTail]
      split
      · have h := ih (got + 1) (bits * 0x40 + (b.toNat - 0x80)) bs
        rw [List.length_cons]
        omega
      · exact Nat.le_add_right _ _

theorem length_scan_le (b : UInt8) (bs : List UInt8) : (scan b bs).read.2 ≤ bs.length + 1 := by
  unfold scan
  split
  · exact Nat.le_add_left _ _
  · split
    · exact Nat.le_add_left _ _
    · split
      · exact Nat.le_refl _
      · split
        · refine Nat.le_trans (length_scanTail_le _ 2 _ _) ?_
          simp only [List.length_cons]
          omega
        · exact Nat.le_add_left _ _

/-- No byte in front continues a character. -/
def Fresh (cs : List UInt8) : Prop :=
  ∀ b ∈ cs.head?, isTail b = false

/-- Bytes are read the same whatever fresh bytes follow them: a character that they break off stays broken off. -/
theorem read_scanTail_append (h : Fresh cs) (k got bits : Nat) (bs : List UInt8) :
    (scanTail k got bits (bs ++ cs)).read = (scanTail k got bits bs).read := by
  induction k generalizing got bits bs with
  | zero => rfl
  | succ k ih =>
    cases bs with
    | cons b bs =>
      rw [List.cons_append, scanTail, scanTail]
      split
      · exact ih _ _ _
      · rfl
    | nil =>
      cases cs with
      | nil => rfl
      | cons c cs =>
        have hc := h c rfl
        rw [List.nil_append, scanTail, scanTail, hc]
        rfl

theorem isTail_of_range {l : Lead} (h : lead? b = some l) (hfollow : l.follow ≠ 0) {c : UInt8}
    (hc : (l.low ≤ c && c ≤ l.high) = true) : isTail c = true := by
  have hmin : (0x80 : UInt8).toNat = 0x80 := rfl
  have hmax : (0xBF : UInt8).toNat = 0xBF := rfl
  obtain ⟨hlow, hhigh⟩ : 0x80 ≤ l.low.toNat ∧ l.high.toNat ≤ 0xBF := by
    rcases lead?_eq_some h with ⟨hzero, -⟩ | ⟨hrange, -⟩
    · exact absurd hzero hfollow
    · exact hrange
  simp only [isTail, Bool.and_eq_true, decide_eq_true_eq, UInt8.le_iff_toNat_le, hmin, hmax] at hc ⊢
  omega

theorem read_scan_append (h : Fresh cs) (b : UInt8) (bs : List UInt8) :
    (scan b (bs ++ cs)).read = (scan b bs).read := by
  rw [scan, scan]
  cases hlead : lead? b with
  | none => rfl
  | some l =>
    dsimp only
    by_cases hfollow : l.follow = 0
    · rw [if_pos hfollow, if_pos hfollow]
    · rw [if_neg hfollow, if_neg hfollow]
      cases bs with
      | cons b₂ bs =>
        dsimp only [List.cons_append]
        split
        · exact read_scanTail_append h _ _ _ _
        · rfl
      | nil =>
        cases cs with
        | nil => rfl
        | cons c cs =>
          have hc : ¬ (l.low ≤ c && c ≤ l.high) = true := fun hrange => by
            have htail := isTail_of_range hlead hfollow hrange
            simp [h c rfl] at htail
          dsimp only [List.nil_append]
          rw [if_neg hc]
          rfl

/-- Bytes can be cut in front of any byte that continues no character. -/
theorem decodeLossy_append (h : Fresh cs) (bs : List UInt8) :
    decodeLossy (bs ++ cs) = decodeLossy bs ++ decodeLossy cs := by
  generalize hn : bs.length = n
  induction n using Nat.strongRecOn generalizing bs with
  | _ n ih =>
    cases bs with
    | nil => rw [List.nil_append, show decodeLossy [] = [] by rw [decodeLossy], List.nil_append]
    | cons b bs =>
      have hread := read_scan_append h b bs
      have hlength := length_scan_le b bs
      have hrest : (bs.drop ((scan b bs).read.2 - 1)).length < n := by
        rw [List.length_drop, ← hn, List.length_cons]
        omega
      rw [List.cons_append, decodeLossy_cons, decodeLossy_cons, Front.shown, Front.shown, hread,
        List.drop_append_of_le_length (by omega), ih _ hrest _ rfl, List.cons_append]

/-! ## Ill-formed parts between texts -/

theorem isTail_eq_false_iff : isTail b = false ↔ b.toNat < 0x80 ∨ 0xC0 ≤ b.toNat := by
  have hmin : (0x80 : UInt8).toNat = 0x80 := rfl
  have hmax : (0xBF : UInt8).toNat = 0xBF := rfl
  rw [← Bool.not_eq_true]
  simp only [isTail, Bool.and_eq_true, decide_eq_true_eq, UInt8.le_iff_toNat_le, hmin, hmax]
  omega

/-- No form begins with a byte that continues one. -/
theorem Form.fresh_append (h : Form k n bs) (cs : List UInt8) : Fresh (bs ++ cs) := by
  have hfirst : ∀ {a : Nat}, a < 0x80 ∨ 0xC0 ≤ a ∧ a < 0x100 → ∀ rest : List UInt8, Fresh (a.toUInt8 :: rest) := by
    intro a ha rest b hb
    obtain rfl := Option.some.inj hb
    rw [isTail_eq_false_iff, toNat_toUInt8 (by omega)]
    omega
  cases h with
  | one ha => exact hfirst (.inl ha) _
  | two ha hb => exact hfirst (.inr (by omega)) _
  | three ha hb hc => exact hfirst (.inr (by omega)) _
  | four ha hb hc hd => exact hfirst (.inr (by omega)) _

theorem fresh_encode (text : List Char) : Fresh (encode text) := by
  cases text with
  | nil => exact fun b hb => nomatch hb
  | cons c text => exact (form_encodeChar c).fresh_append (encode text)

theorem decodeLossy_nil : decodeLossy [] = [] := by
  rw [decodeLossy]

/-- The bytes of a text are read as the text, whatever follows them. -/
theorem decodeLossy_encode_append (text : List Char) (bs : List UInt8) :
    decodeLossy (encode text ++ bs) = text ++ decodeLossy bs := by
  induction text with
  | nil => rfl
  | cons c text ih =>
    obtain ⟨b, cs, hc, hscan⟩ := scan_encodeChar c (encode text ++ bs)
    have hsplit : encode (c :: text) ++ bs = b :: (cs ++ (encode text ++ bs)) := by
      rw [encode, List.flatMap_cons, ← encode, hc, List.append_assoc, List.cons_append]
    rw [hsplit, decodeLossy_cons, hscan]
    simp only [Front.shown, Front.read, Option.getD_some, Nat.add_sub_cancel, List.drop_left, ih, List.cons_append]

theorem decodeLossy_encode (text : List Char) : decodeLossy (encode text) = text := by
  have h := decodeLossy_encode_append text []
  rwa [decodeLossy_nil, List.append_nil, List.append_nil] at h

end Scratchpad.Text.Utf8

/-! ## The boundary of the interpreter -/

namespace Scratchpad.Inspect.Value

open Text.Utf8

/-- The bytes of a string: those of a text, or the bytes that are no text. -/
def bytes? : Value → Option (List UInt8)
  | text s => some (ofString s)
  | bytes bs => some bs
  | _ => none

theorem ofBytes_eq_text_iff {bs : List UInt8} {s : String} : ofBytes bs = .text s ↔ ofString s = bs := by
  rw [← decode?_eq_some_iff, ofBytes]
  cases decode? bs <;> simp

theorem bytes?_ofBytes (bs : List UInt8) : (ofBytes bs).bytes? = some bs := by
  rw [ofBytes]
  cases h : decode? bs with
  | none => rfl
  | some s => exact congrArg some (decode?_eq_some_iff.1 h)

/-- Strings cross the boundary without loss: bytes come back from the value that they are shown as, which is a text just
if they are well-formed, and a text comes back from its bytes. Reading with replacements agrees with this where there is
a text, and ill-formed bytes do not change what is read of the well-formed bytes around them. -/
theorem ofBytes_lossless :
    (∀ bs, (ofBytes bs).bytes? = some bs) ∧
      (∀ bs, (∃ s, ofBytes bs = .text s) ↔ WellFormed bs) ∧
      (∀ s, ofBytes (ofString s) = .text s) ∧
      (∀ bs bs', ofBytes bs = ofBytes bs' → bs = bs') ∧
      (∀ bs s, ofBytes bs = .text s → toStringLossy bs = s) ∧
      ∀ before bs behind, WellFormed before → WellFormed behind →
        toStringLossy (before ++ bs ++ behind) = toStringLossy before ++ toStringLossy bs ++ toStringLossy behind := by
  refine ⟨bytes?_ofBytes, fun bs => ?_, fun s => ofBytes_eq_text_iff.2 rfl, fun bs bs' h => ?_, fun bs s h => ?_, ?_⟩
  · simp only [wellFormed_iff_decode?, ofBytes_eq_text_iff, decode?_eq_some_iff]
  · have hbytes := bytes?_ofBytes bs
    rw [h, bytes?_ofBytes] at hbytes
    exact (Option.some.inj hbytes).symm
  · rw [← ofBytes_eq_text_iff.1 h, toStringLossy, ofString, decodeLossy_encode, String.ofList_toList]
  · intro before bs behind hbefore hbehind
    obtain ⟨first, rfl⟩ := wellFormed_iff.1 hbefore
    obtain ⟨last, rfl⟩ := wellFormed_iff.1 hbehind
    have hlist : decodeLossy (encode first ++ bs ++ encode last) = first ++ (decodeLossy bs ++ last) := by
      rw [List.append_assoc, decodeLossy_encode_append, decodeLossy_append (fresh_encode last), decodeLossy_encode]
    simp only [toStringLossy, hlist, decodeLossy_encode, String.ofList_append, String.append_assoc]

/-- A character that breaks off in front of a letter. -/
theorem ofBytes_lossless_truncated :
    WellFormed [0xC3, 0xA9] ∧ WellFormed [0x78] ∧ toStringLossy ([0xC3, 0xA9] ++ [0xE2, 0x82] ++ [0x78]) = "é\uFFFDx" := by
  have hfirst : WellFormed [0xC3, 0xA9] := wellFormed_iff.2 ⟨['é'], by decide⟩
  have hlast : WellFormed [0x78] := wellFormed_iff.2 ⟨['x'], by decide⟩
  refine ⟨hfirst, hlast, ?_⟩
  have hbroken : decodeLossy [0xE2, 0x82] = ['\uFFFD'] := (decodeLossy_cons _ _).trans (congrArg _ decodeLossy_nil)
  have hread : decodeLossy [0xC3, 0xA9] = ['é'] ∧ decodeLossy [0x78] = ['x'] :=
    ⟨decodeLossy_encode ['é'], decodeLossy_encode ['x']⟩
  rw [ofBytes_lossless.2.2.2.2.2 _ _ _ hfirst hlast, toStringLossy, toStringLossy, toStringLossy, hbroken, hread.1,
    hread.2, ← String.ofList_append, ← String.ofList_append]
  rfl

end Scratchpad.Inspect.Value
