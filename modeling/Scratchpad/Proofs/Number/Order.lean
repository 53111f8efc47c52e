import Mathlib.Algebra.Order.Field.Basic
import Mathlib.Algebra.Order.Ring.Rat
import Mathlib.Order.WithBot
import Scratchpad.Number.Binary64

/-!
# The order of numbers by their exact values

The exact value of a floating point number that is not NaN is a ratio or an infinity. Numbers are compared by keys made
of their bits, and with integers by multiplying out; both are the order of the exact values. Main statements: `lt_iff`,
`compareInt_eq_lt_iff` and `compareInt_eq_gt_iff`.
-/

namespace Scratchpad

/-- The exact value of a number that is not NaN. -/
abbrev ExactValue := WithBot (WithTop ℚ)

/-- A ratio as an exact value. -/
def ExactValue.ofRat (q : ℚ) : ExactValue :=
  ((q : WithTop ℚ) : WithBot (WithTop ℚ))

namespace ExactValue

variable {p q : ℚ}

theorem ofRat_lt_ofRat : ofRat p < ofRat q ↔ p < q := by
  rw [ofRat, ofRat, WithBot.coe_lt_coe, WithTop.coe_lt_coe]

@[simp]
theorem bot_lt_ofRat : ⊥ < ofRat q :=
  WithBot.bot_lt_coe _

@[simp]
theorem ofRat_lt_top : ofRat q < ⊤ :=
  WithBot.coe_lt_coe.2 (WithTop.coe_lt_top q)

end ExactValue

namespace Binary64

variable {x y : Binary64}

/-- The bits of a number but its sign. -/
def magnitude (x : Binary64) : Nat :=
  x.bits.toNat % 2 ^ 63

/-- The magnitude of the infinities. -/
def infiniteMagnitude : Nat := 2047 * 2 ^ 52

/-- The least positive number is two to the minus so many. -/
def leastScale : Nat := 1074

/-- One as a multiple of the least positive number. -/
def one : Nat := 2 ^ leastScale

theorem one_pos : 0 < one :=
  Nat.two_pow_pos leastScale

/-- The finite number with the given magnitude as a multiple of the least positive number. -/
def steps (m : Nat) : Nat :=
  (if m / 2 ^ 52 = 0 then m % 2 ^ 52 else 2 ^ 52 + m % 2 ^ 52) * 2 ^ (m / 2 ^ 52 - 1)

/-- A number with the given sign. -/
def signed (negative : Bool) (n : Nat) : ℤ :=
  if negative then -n else n

def exactValue (x : Binary64) : ExactValue :=
  if x.isInfinite then if x.negative then ⊥ else ⊤
  else .ofRat (signed x.negative x.toRatio.1 / x.toRatio.2)

/-! ## Magnitudes -/

theorem exponentField_eq (x : Binary64) : x.exponentField = x.magnitude / 2 ^ 52 := by
  have hlt := x.bits.toNat_lt
  have hshift : (x.bits >>> 52).toNat = x.bits.toNat / 2 ^ 52 := by
    rw [UInt64.toNat_shiftRight, Nat.shiftRight_eq_div_pow]
    rfl
  rw [exponentField, hshift, magnitude]
  omega

theorem fraction_eq (x : Binary64) : x.fraction = x.magnitude % 2 ^ 52 := by
  rw [fraction, magnitude]
  omega

theorem isInfinite_iff : x.isInfinite = true ↔ x.magnitude = infiniteMagnitude := by
  have hlt : x.magnitude < 2 ^ 63 := Nat.mod_lt _ (by decide)
  simp only [isInfinite, exponentField_eq, fraction_eq, Bool.and_eq_true, decide_eq_true_eq, infiniteMagnitude]
  omega

theorem isNaN_eq_false_iff : x.isNaN = false ↔ x.magnitude ≤ infiniteMagnitude := by
  have hlt : x.magnitude < 2 ^ 63 := Nat.mod_lt _ (by decide)
  rw [← Bool.not_eq_true]
  simp only [isNaN, exponentField_eq, fraction_eq, Bool.and_eq_true, decide_eq_true_eq, infiniteMagnitude]
  omega

theorem toRatio_pos (x : Binary64) : 0 < x.toRatio.2 := by
  unfold toRatio
  split
  · exact Nat.one_pos
  · rw [Nat.one_shiftLeft]
    exact Nat.two_pow_pos _

/-- A finite number has as many steps as its magnitude says. -/
theorem toRatio_mul (x : Binary64) : x.toRatio.1 * one = steps x.magnitude * x.toRatio.2 := by
  have hsteps : steps x.magnitude = x.significand * 2 ^ x.scale := by
    rw [steps, significand, scale, exponentField_eq, fraction_eq]
    rfl
  unfold toRatio one leastScale
  split
  · rename_i h
    rw [hsteps, Nat.shiftLeft_eq, Nat.mul_assoc, ← pow_add, Nat.sub_add_cancel h, Nat.mul_one]
  · rename_i h
    rw [hsteps, Nat.one_shiftLeft, Nat.mul_assoc, ← pow_add, Nat.add_sub_cancel' (Nat.le_of_not_le h)]

/-- A greater magnitude means more steps: the leading digit of the significand makes up for its missing digits. -/
theorem steps_strictMono : StrictMono steps := by
  intro m n h
  have hm := Nat.mod_lt m (show 0 < 2 ^ 52 by decide)
  rcases Nat.lt_or_eq_of_le (Nat.div_le_div_right (c := 2 ^ 52) h.le) with hexp | hexp
  · have hn : n / 2 ^ 52 ≠ 0 := by omega
    have hlow : steps m < 2 ^ 52 * 2 ^ (n / 2 ^ 52 - 1) := by
      by_cases hzero : m / 2 ^ 52 = 0
      · rw [steps, if_pos hzero, hzero]
        exact Nat.mul_lt_mul_of_lt_of_le hm Nat.one_le_two_pow Nat.one_le_two_pow
      · calc steps m = (2 ^ 52 + m % 2 ^ 52) * 2 ^ (m / 2 ^ 52 - 1) := by rw [steps, if_neg hzero]
          _ < (2 ^ 52 * 2) * 2 ^ (m / 2 ^ 52 - 1) := Nat.mul_lt_mul_of_pos_right (by omega) (Nat.two_pow_pos _)
          _ = 2 ^ 52 * 2 ^ (m / 2 ^ 52) := by rw [Nat.mul_assoc, ← pow_succ', Nat.sub_add_cancel (by omega)]
          _ ≤ 2 ^ 52 * 2 ^ (n / 2 ^ 52 - 1) := Nat.mul_le_mul_left _ (Nat.pow_le_pow_right (by decide) (by omega))
    refine hlow.trans_le ?_
    rw [steps, if_neg hn]
    exact Nat.mul_le_mul_right _ (Nat.le_add_right _ _)
  · have hfraction : m % 2 ^ 52 < n % 2 ^ 52 := by omega
    rw [steps, steps, hexp]
    refine Nat.mul_lt_mul_of_pos_right ?_ (Nat.two_pow_pos _)
    split <;> omega

/-- Signs keep the order of steps. -/
theorem signed_steps_lt_iff (s t : Bool) (m n : Nat) :
    signed s (steps m) < signed t (steps n) ↔ signed s m < signed t n := by
  have hzero : steps 0 = 0 := by decide
  have hmn := steps_strictMono.lt_iff_lt (a := m) (b := n)
  have hnm := steps_strictMono.lt_iff_lt (a := n) (b := m)
  have hm := steps_strictMono.lt_iff_lt (a := 0) (b := m)
  have hn := steps_strictMono.lt_iff_lt (a := 0) (b := n)
  cases s <;> cases t <;> simp only [signed] <;> simp <;> omega

theorem signed_lt_of_lt {m n : Nat} (h : m < n) (s : Bool) :
    signed true n < signed s m ∧ signed s m < signed false n := by
  cases s <;> simp [signed] <;> omega

/-! ## Comparisons -/

theorem exactValue_of_infinite (h : x.isInfinite = true) :
    x.exactValue = if x.negative then ⊥ else ⊤ :=
  if_pos h

theorem exactValue_of_finite (h : x.isInfinite = false) :
    x.exactValue = .ofRat (signed x.negative x.toRatio.1 / x.toRatio.2) :=
  if_neg (by simp [h])

theorem signed_cast_mul (s : Bool) (m k : Nat) : (signed s (m * k) : ℚ) = signed s m * k := by
  cases s <;> simp [signed]

/-- The exact value of a finite number from its magnitude. -/
theorem exactValue_eq_steps (h : x.isInfinite = false) :
    x.exactValue = .ofRat (signed x.negative (steps x.magnitude) / one) := by
  have hd : (x.toRatio.2 : ℚ) ≠ 0 := Nat.cast_ne_zero.2 x.toRatio_pos.ne'
  have hone : (one : ℚ) ≠ 0 := Nat.cast_ne_zero.2 one_pos.ne'
  rw [exactValue_of_finite h]
  congr 1
  rw [div_eq_div_iff hd hone, ← signed_cast_mul, ← signed_cast_mul, toRatio_mul]

theorem magnitude_lt (hx : x.isNaN = false) (h : x.isInfinite = false) : x.magnitude < infiniteMagnitude := by
  have hne : x.magnitude ≠ infiniteMagnitude := fun heq => by simp [isInfinite_iff.2 heq] at h
  exact Nat.lt_of_le_of_ne (isNaN_eq_false_iff.1 hx) hne

/-- Numbers that are not NaN are ordered by their exact values. -/
theorem lt_iff (hx : x.isNaN = false) (hy : y.isNaN = false) : x.lt y = true ↔ x.exactValue < y.exactValue := by
  have hlt : x.lt y = true ↔ signed x.negative x.magnitude < signed y.negative y.magnitude := by
    rw [lt, hx, hy]
    exact decide_eq_true_iff
  rw [hlt]
  cases hxi : x.isInfinite <;> cases hyi : y.isInfinite
  · have hone : (0 : ℚ) < one := Nat.cast_pos.2 one_pos
    rw [exactValue_eq_steps hxi, exactValue_eq_steps hyi, ExactValue.ofRat_lt_ofRat, div_lt_div_iff_of_pos_right hone,
      Int.cast_lt, signed_steps_lt_iff]
  · obtain ⟨hlow, hhigh⟩ := signed_lt_of_lt (magnitude_lt hx hxi) x.negative
    rw [exactValue_of_finite hxi, exactValue_of_infinite hyi, isInfinite_iff.1 hyi]
    cases y.negative
    · simpa using hhigh
    · simpa using hlow.le
  · obtain ⟨hlow, hhigh⟩ := signed_lt_of_lt (magnitude_lt hy hyi) y.negative
    rw [exactValue_of_finite hyi, exactValue_of_infinite hxi, isInfinite_iff.1 hxi]
    cases x.negative
    · simpa using hhigh.le
    · simpa using hlow
  · rw [exactValue_of_infinite hxi, exactValue_of_infinite hyi, isInfinite_iff.1 hxi, isInfinite_iff.1 hyi]
    cases x.negative <;> cases y.negative <;> simp [signed, infiniteMagnitude]

theorem compareInt_of_finite (h : x.isInfinite = false) (i : ℤ) :
    x.compareInt i = compare (signed x.negative x.toRatio.1) (i * x.toRatio.2) := by
  rw [compareInt, if_neg (by simp [h])]
  rfl

theorem compareInt_of_infinite (h : x.isInfinite = true) (i : ℤ) :
    x.compareInt i = if x.negative then .lt else .gt :=
  if_pos h

theorem compareInt_eq_lt_iff (x : Binary64) (i : ℤ) : x.compareInt i = .lt ↔ x.exactValue < .ofRat i := by
  cases h : x.isInfinite
  · have hd : (0 : ℚ) < x.toRatio.2 := Nat.cast_pos.2 x.toRatio_pos
    rw [compareInt_of_finite h, exactValue_of_finite h, compare_lt_iff_lt, ExactValue.ofRat_lt_ofRat, div_lt_iff₀ hd]
    exact_mod_cast Iff.rfl
  · rw [compareInt_of_infinite h, exactValue_of_infinite h]
    cases x.negative <;> simp

theorem compareInt_eq_gt_iff (x : Binary64) (i : ℤ) : x.compareInt i = .gt ↔ .ofRat i < x.exactValue := by
  cases h : x.isInfinite
  · have hd : (0 : ℚ) < x.toRatio.2 := Nat.cast_pos.2 x.toRatio_pos
    rw [compareInt_of_finite h, exactValue_of_finite h, compare_gt_iff_gt, ExactValue.ofRat_lt_ofRat, lt_div_iff₀ hd]
    exact_mod_cast Iff.rfl
  · rw [compareInt_of_infinite h, exactValue_of_infinite h]
    cases x.negative <;> simp

end Binary64

end Scratchpad
