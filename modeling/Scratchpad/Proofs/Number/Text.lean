import Scratchpad.Proofs.Number.Rounding

/-!
# The numbers that texts denote

A numeral denotes a ratio. The text of a finite floating point number denotes its exact value rounded to fourteen
significant digits, with the sign of the number, and the text of an integer, if it has one, is its numeral. Main
statement: `texts_of_numbers`.
-/

namespace Scratchpad

namespace Binary64

variable {count : ℕ} {x y : Binary64}

/-! ## Values of numerals -/

/-- The ratio that a numeral stands for. -/
def Numeral.value (n : Numeral) : ℚ :=
  n.decimal.value

theorem Numeral.value_eq (whole fraction : List Char) (e? : Option ℤ) : (⟨whole, fraction, e?⟩ : Numeral).value =
    readDigits (whole ++ fraction) * 10 ^ (e?.getD 0 - fraction.length) :=
  rfl

/-- Zeros at the end of the digits behind the point do not count. -/
theorem Numeral.value_append_replicate (whole fraction : List Char) (e? : Option ℤ) (n : ℕ) :
    (⟨whole, fraction ++ List.replicate n '0', e?⟩ : Numeral).value = (⟨whole, fraction, e?⟩ : Numeral).value := by
  rw [value_eq, value_eq, ← List.append_assoc, readDigits_append_replicate, List.length_append, List.length_replicate,
    Nat.cast_mul, Nat.cast_pow, Nat.cast_ofNat, mul_assoc, ← zpow_natCast, ← zpow_add₀ (by norm_num)]
  congr 2
  push_cast
  ring

theorem Numeral.value_trimZeros (whole fraction : List Char) (e? : Option ℤ) :
    (⟨whole, trimZeros fraction, e?⟩ : Numeral).value = (⟨whole, fraction, e?⟩ : Numeral).value := by
  obtain ⟨n, hn⟩ := exists_trimZeros fraction
  conv_rhs => rw [hn]
  rw [value_append_replicate]

theorem Numeral.value_pointed (n : Numeral) : n.pointed.value = n.value := by
  unfold pointed
  split
  · rename_i h
    obtain ⟨whole, fraction, e?⟩ := n
    obtain ⟨rfl, -⟩ : fraction = [] ∧ e? = none := h
    exact value_append_replicate whole [] e? 1
  · rfl

/-- The value of digits the first of which stands for `10 ^ e`. -/
def placed (ds : List Char) (e : ℤ) : ℚ :=
  readDigits ds * 10 ^ (e + 1 - ds.length)

theorem value_scientific {ds : List Char} (h : ds ≠ []) (e : ℤ) :
    (⟨ds.take 1, ds.drop 1, some e⟩ : Numeral).value = placed ds e := by
  have hpos : 0 < ds.length := List.length_pos_iff.2 h
  rw [Numeral.value_eq, List.take_append_drop, List.length_drop, placed, Option.getD_some]
  congr 2
  omega

theorem value_positional (ds : List Char) (e : ℤ) :
    (⟨(positional ds e).1, (positional ds e).2, none⟩ : Numeral).value = placed ds e := by
  rw [Numeral.value_eq, placed, positional, Option.getD_none]
  split
  · have hzeros : readDigits (['0'] ++ (List.replicate ((-e).toNat - 1) '0' ++ ds)) = readDigits ds :=
      (readDigits_replicate_append 1 _).trans (readDigits_replicate_append _ ds)
    rw [hzeros, List.length_append, List.length_replicate]
    congr 2
    omega
  · dsimp only
    by_cases hshort : e.toNat + 1 ≤ ds.length
    · rw [Nat.sub_eq_zero_of_le hshort, List.replicate_zero, List.append_nil, List.take_append_drop, List.length_drop]
      congr 2
      omega
    · -- the digits end in front of the point, and zeros stand for those that are missing
      rw [List.take_of_length_le (by omega), List.drop_of_length_le (by omega), List.append_nil,
        readDigits_append_replicate, List.length_nil, Nat.cast_mul, Nat.cast_pow, Nat.cast_ofNat, mul_assoc,
        ← zpow_natCast, ← zpow_add₀ (by norm_num)]
      congr 2
      omega

theorem digits_significant_lt (x : Binary64) (hcount : 0 < count) : (x.significant count).digits < 10 ^ count := by
  rcases Nat.eq_zero_or_pos x.toRatio.1 with h | h
  · rw [significant_of_zero h]
    exact Nat.pow_pos (by decide)
  · exact (significant_of_pos hcount h).1.2

theorem placed_leading (x : Binary64) (hcount : 0 < count) :
    placed (x.leading count).1 (x.leading count).2 = (x.significant count).value := by
  have hlength : (natDigits (x.significant count).digits).length ≤ count :=
    (Nat.length_toDigits_le_iff (by decide) hcount).2 (x.digits_significant_lt hcount)
  rw [placed, leading]
  dsimp only
  rw [readDigits_padZeros, readDigits_natDigits, length_padZeros hlength, Decimal.value]
  split
  · rename_i hzero
    rw [hzero, Nat.cast_zero, zero_mul, zero_mul]
  · congr 2
    ring

/-- The numeral of a number stands for the rounded number. -/
theorem value_numeral (x : Binary64) (hcount : 0 < count) : (x.numeral count).value = (x.significant count).value := by
  rw [← x.placed_leading hcount, numeral]
  dsimp only
  split
  · rw [Numeral.value_trimZeros, value_scientific (x.leading_ne_nil count)]
  · rw [Numeral.value_trimZeros, value_positional]

/-! ## Exact values -/

/-- The exact value of a finite number. -/
def toRat (x : Binary64) : ℚ :=
  signed x.negative x.significand * 2 ^ ((x.scale : ℤ) - 1074)

/-- A ratio with the given sign. -/
def signedRat (negative : Bool) (q : ℚ) : ℚ :=
  if negative then -q else q

theorem ratio_eq (x : Binary64) : x.ratio = x.significand * 2 ^ ((x.scale : ℤ) - 1074) := by
  unfold ratio toRatio
  split
  · rename_i h
    have hscale : ((x.scale - 1074 : ℕ) : ℤ) = x.scale - 1074 := Nat.cast_sub h
    rw [Nat.shiftLeft_eq, Nat.cast_mul, Nat.cast_pow, Nat.cast_ofNat, Nat.cast_one, div_one, ← zpow_natCast, hscale]
  · rename_i h
    have hscale : ((1074 - x.scale : ℕ) : ℤ) = 1074 - x.scale := Nat.cast_sub (Nat.le_of_not_le h)
    rw [Nat.one_shiftLeft, Nat.cast_pow, Nat.cast_ofNat, div_eq_mul_inv, ← zpow_natCast, ← zpow_neg, hscale, neg_sub]

theorem toRat_eq (x : Binary64) : x.toRat = signedRat x.negative x.ratio := by
  rw [toRat, ratio_eq, signedRat, signed]
  split
  · rw [Int.cast_neg, Int.cast_natCast, neg_mul]
  · rw [Int.cast_natCast]

theorem isNaN_of_isFinite (h : x.isFinite = true) : x.isNaN = false := by
  have hfield : x.exponentField ≠ 0x7FF := by simpa [isFinite] using h
  simp [isNaN, hfield]

theorem isInfinite_of_isFinite (h : x.isFinite = true) : x.isInfinite = false := by
  have hfield : x.exponentField ≠ 0x7FF := by simpa [isFinite] using h
  simp [isInfinite, hfield]

theorem exactValue_eq_toRat (h : x.isFinite = true) : x.exactValue = .ofRat x.toRat := by
  rw [exactValue_of_finite (isInfinite_of_isFinite h), toRat_eq, signedRat, signed, ratio]
  cases x.negative <;> simp [neg_div]

theorem le_iff_lt (hx : x.isNaN = false) (hy : y.isNaN = false) : x.le y = true ↔ ¬ y.lt x = true := by
  simp [le, lt, hx, hy]

/-- Finite numbers are compared by their exact values. -/
theorem le_iff_toRat (hx : x.isFinite = true) (hy : y.isFinite = true) : x.le y = true ↔ x.toRat ≤ y.toRat := by
  have hxn := isNaN_of_isFinite hx
  have hyn := isNaN_of_isFinite hy
  rw [le_iff_lt hxn hyn, lt_iff hyn hxn, exactValue_eq_toRat hx, exactValue_eq_toRat hy, ExactValue.ofRat_lt_ofRat,
    not_lt]

theorem isRounded_signed (x : Binary64) (hcount : 0 < count) :
    IsRounded count x.toRat (signedRat x.negative (x.numeral count).value) := by
  have h := x.isRounded_significant hcount
  rw [x.value_numeral hcount, toRat_eq]
  cases x.negative with
  | false => exact h
  | true => exact h.neg

end Binary64

open Binary64

/-! ## What texts denote -/

/-- The ratio that a text denotes, if it is a numeral behind a minus or nothing. -/
def denoted? (cs : List Char) : Option ℚ :=
  (Numeral.readSigned? cs).map fun r => signedRat r.1 r.2.value

/-- The text is the numeral of an integer: a minus if it is negative, and digits without needless zeros in front. -/
structure IsIntegerNumeral (i : ℤ) (cs : List Char) : Prop where
  denotes : denoted? cs = some (i : ℚ)
  digits : ∃ ds, cs = (if i < 0 then ['-'] else []) ++ ds ∧ ds ≠ [] ∧ Digits ds ∧ (ds.head? = some '0' → ds = ['0'])

/-- The text is a numeral of a finite floating point number: it has the number's sign and a point or an exponent, and
denotes the exact value rounded to fourteen significant digits. -/
structure IsFloatNumeral (x : Binary64) (cs : List Char) : Prop where
  signed : ∃ n, Numeral.readSigned? cs = some (x.negative, n)
  marked : '.' ∈ cs ∨ 'e' ∈ cs
  rounded : ∃ q, denoted? cs = some q ∧ IsRounded 14 x.toRat q

theorem readSigned?_floatText {x : Binary64} (h : x.isFinite = true) :
    Numeral.readSigned? (floatText x) = some (x.negative, (x.numeral 14).pointed) := by
  rw [floatText_eq h]
  exact Numeral.readSigned?_text (x.numeral_proper 14).pointed x.negative

theorem isFloatNumeral_floatText {x : Binary64} (h : x.isFinite = true) : IsFloatNumeral x (floatText x) where
  signed := ⟨_, readSigned?_floatText h⟩
  marked := by
    rw [floatText_eq h]
    exact (Numeral.mem_text_pointed _).imp (List.mem_append_right _) (List.mem_append_right _)
  rounded := by
    refine ⟨_, by rw [denoted?, readSigned?_floatText h, Option.map_some], ?_⟩
    rw [Numeral.value_pointed]
    exact x.isRounded_signed (by decide)

/-- Digits begin with a zero only if that is all. -/
theorem head?_natDigits (n : ℕ) (h : (natDigits n).head? = some '0') : n = 0 := by
  have hdigit : ∀ m < 10, [m.digitChar].head? = some '0' → m = 0 := by decide
  induction n using Nat.strong_induction_on with
  | _ n ih =>
    rw [natDigits, Nat.toDigits_eq_if (by decide)] at h
    split at h
    · exact hdigit n ‹_› h
    · have hne : Nat.toDigits 10 (n / 10) ≠ [] := natDigits_ne_nil (n / 10)
      rw [List.head?_append_of_ne_nil _ hne] at h
      have hzero := ih (n / 10) (by omega) h
      omega

theorem isIntegerNumeral_intText (i : ℤ) : IsIntegerNumeral i (intText i) where
  denotes := by
    have hproper : (⟨natDigits i.natAbs, [], none⟩ : Numeral).Proper :=
      ⟨digits_natDigits _, .nil, natDigits_ne_nil _⟩
    have hread := Numeral.readSigned?_text hproper (decide (i < 0))
    have htext : (⟨natDigits i.natAbs, [], none⟩ : Numeral).text = natDigits i.natAbs := by
      simp [Numeral.text, afterPoint]
    simp only [decide_eq_true_eq, htext] at hread
    have hvalue : (⟨natDigits i.natAbs, [], none⟩ : Numeral).value = i.natAbs := by
      simp [Numeral.value_eq]
    rw [denoted?, intText, hread, Option.map_some, hvalue, signedRat]
    congr 1
    by_cases hneg : i < 0
    · rw [if_pos (by simpa using hneg), Nat.cast_natAbs, abs_of_neg hneg, Int.cast_neg, neg_neg]
    · rw [if_neg (by simpa using hneg), Nat.cast_natAbs, abs_of_nonneg (by omega)]
  digits := by
    refine ⟨_, rfl, natDigits_ne_nil _, digits_natDigits _, fun h => ?_⟩
    rw [head?_natDigits _ h]
    rfl

theorem isIntChar_intText (i : ℤ) : Only isIntChar (intText i) := by
  refine .append ?_ ((digits_natDigits _).mono fun _ => isIntChar_of_isDigit)
  split
  · exact .of_all (by decide)
  · exact .nil

/-- An integer has as many digits as the first power of ten above it has zeros. -/
theorem isTooLong_eq_false_iff {i : ℤ} : Integer.isTooLong i = false ↔ i.natAbs < 10 ^ Integer.maxDigits := by
  rw [Integer.isTooLong, decide_eq_false_iff_not, not_lt]
  exact Nat.length_toDigits_le_iff (by decide) (by decide)

theorem isTooLong_of_le {i : ℤ} (h : 10 ^ Integer.maxDigits ≤ i.natAbs) : Integer.isTooLong i = true := by
  rw [← Bool.not_eq_false, isTooLong_eq_false_iff]
  exact not_lt.2 h

namespace Numeric

variable {cs : List Char}

theorem text?_int_eq_ok_iff {i : ℤ} : (int i).text? = .ok cs ↔ i.natAbs < 10 ^ Integer.maxDigits ∧ cs = intText i := by
  rw [← isTooLong_eq_false_iff, text?]
  cases Integer.isTooLong i <;> simp [eq_comm]

theorem text?_float (x : Binary64) : (float x).text? = .ok (floatText x) :=
  rfl

theorem text?_int_of_isTooLong {i : ℤ} (h : Integer.isTooLong i = true) :
    (int i).text? = .error Integer.tooLongMessage :=
  if_pos h

/-- The text of a floating point number is no other number's: those of integers lack a point, an exponent and letters,
and those of truth values are words. -/
theorem text?_float_ne {x : Binary64} {n : Numeric} (hn : ∀ y, n ≠ float y) : (float x).text? ≠ n.text? := by
  obtain ⟨c, hc, hnot⟩ := exists_not_isIntChar x
  intro heq
  cases n with
  | float y => exact hn y rfl
  | int i =>
    obtain ⟨-, htext⟩ := text?_int_eq_ok_iff.1 heq.symm
    rw [isIntChar_intText i c (htext ▸ hc)] at hnot
    cases hnot
  | bool b =>
    have hnumber := List.all_eq_true.2 (isNumberChar_floatText x)
    have hword : (if b then "true" else "false").toList.all isNumberChar = false := by
      cases b <;> decide
    rw [Except.ok.inj heq, hword] at hnumber
    cases hnumber

end Numeric

/-- The text of a finite floating point number is a numeral with a point or an exponent and with the number's sign, and
denotes its exact value rounded to fourteen significant digits; so the texts are ordered like the numbers. An integer
has a text if its digits are not too many, and what text it has is its numeral. No integer and no truth value has the
text of a floating point number. -/
theorem texts_of_numbers :
    (∀ x : Binary64, x.isFinite = true → ∃ cs, (Numeric.float x).text? = .ok cs ∧ IsFloatNumeral x cs) ∧
      (∀ x y : Binary64, x.isFinite = true → y.isFinite = true → x.le y = true →
        ∃ cs ds p q, (Numeric.float x).text? = .ok cs ∧ (Numeric.float y).text? = .ok ds ∧ denoted? cs = some p ∧
          denoted? ds = some q ∧ p ≤ q) ∧
      (∀ i : ℤ, i.natAbs < 10 ^ Integer.maxDigits → ∃ cs, (Numeric.int i).text? = .ok cs) ∧
      (∀ i cs, (Numeric.int i).text? = .ok cs → IsIntegerNumeral i cs) ∧
      (∀ b, (Numeric.bool b).text? = .ok (if b then "true" else "false").toList) ∧
      ∀ x n, (∀ y, n ≠ Numeric.float y) → (Numeric.float x).text? ≠ n.text? := by
  refine ⟨fun x h => ⟨_, Numeric.text?_float x, isFloatNumeral_floatText h⟩, fun x y hx hy hle => ?_, fun i h => ?_,
    fun i cs h => ?_, fun b => rfl, fun x n hn => Numeric.text?_float_ne hn⟩
  · obtain ⟨p, hp, hpr⟩ := (isFloatNumeral_floatText hx).rounded
    obtain ⟨q, hq, hqr⟩ := (isFloatNumeral_floatText hy).rounded
    exact ⟨_, _, p, q, Numeric.text?_float x, Numeric.text?_float y, hp, hq,
      hpr.mono (by decide) hqr ((le_iff_toRat hx hy).1 hle)⟩
  · exact ⟨_, Numeric.text?_int_eq_ok_iff.2 ⟨h, rfl⟩⟩
  · obtain ⟨-, rfl⟩ := Numeric.text?_int_eq_ok_iff.1 h
    exact isIntegerNumeral_intText i

/-- A number whose digits are all rounded up, two that are ordered and denote the same, and a negative integer. -/
theorem texts_of_numbers_carry :
    floatText ⟨0x42D6BCC41E8FFFE0⟩ = "1e+14".toList ∧
      (∃ cs, (Numeric.float ⟨0x42D6BCC41E8FFFE0⟩).text? = .ok cs ∧ IsFloatNumeral ⟨0x42D6BCC41E8FFFE0⟩ cs) ∧
      le ⟨0x42D6BCC41E8FFFE0⟩ ⟨0x42D6BCC41E900000⟩ = true ∧
      (∃ cs ds p q, (Numeric.float ⟨0x42D6BCC41E8FFFE0⟩).text? = .ok cs ∧
        (Numeric.float ⟨0x42D6BCC41E900000⟩).text? = .ok ds ∧ denoted? cs = some p ∧ denoted? ds = some q ∧ p ≤ q) ∧
      (∃ cs, (Numeric.int (-120)).text? = .ok cs) ∧ IsIntegerNumeral (-120) "-120".toList ∧
      (Numeric.float ⟨0x42D6BCC41E8FFFE0⟩).text? ≠ (Numeric.int (-120)).text? := by
  obtain ⟨hfloat, hordered, hwritten, hinteger, -, hother⟩ := texts_of_numbers
  have hle : le ⟨0x42D6BCC41E8FFFE0⟩ ⟨0x42D6BCC41E900000⟩ = true := by decide
  have hshort : (-120 : ℤ).natAbs < 10 ^ Integer.maxDigits :=
    (by decide : 120 < 10 ^ 3).trans_le (Nat.pow_le_pow_right (by decide) (by decide))
  exact ⟨by decide +kernel, hfloat _ (by decide), hle, hordered _ _ (by decide) (by decide) hle, hwritten _ hshort,
    hinteger _ _ (Numeric.text?_int_eq_ok_iff.2 ⟨hshort, by decide⟩), hother _ _ (by rintro y ⟨⟩)⟩

/-- The integer with a digit too many has no text, and the truth values, which count as integers, have no numerals. -/
theorem texts_without_numerals :
    (Numeric.int (10 ^ Integer.maxDigits)).text? = .error Integer.tooLongMessage ∧
      (Numeric.bool true).text? = .ok "true".toList ∧ ¬ IsIntegerNumeral 1 "true".toList := by
  have hlong : Integer.isTooLong (10 ^ Integer.maxDigits) = true :=
    isTooLong_of_le (by simp [Int.natAbs_pow])
  refine ⟨Numeric.text?_int_of_isTooLong hlong, rfl, fun h => ?_⟩
  have hnone : denoted? "true".toList = none := by decide
  rw [h.denotes] at hnone
  cases hnone

end Scratchpad
