import Mathlib.Algebra.Order.Archimedean.Basic
import Mathlib.Data.Int.Log
import Mathlib.Data.Rat.Floor
import Mathlib.Tactic.Linarith
import Scratchpad.Proofs.Number.Numeral
import Scratchpad.Proofs.Number.Order

/-!
# Rounding to significant digits

A ratio is rounded to so many significant digits by taking the nearest multiple of the unit of its last digit, a half to
the even one (`IsRounded`). Rounding keeps the order (`IsRounded.mono`), so its result is unique. Main statement: the
decimal that is computed for a finite number is its absolute value rounded to as many digits (`isRounded_significant`).
-/

namespace Scratchpad

/-! ## Nearest integers -/

/-- The integer `m` is nearest to `q`; of two that are as near it is the even one. -/
structure IsNearest (q : ℚ) (m : ℤ) : Prop where
  near : |q - m| ≤ 1 / 2
  even (h : |q - m| = 1 / 2) : Even m

namespace IsNearest

variable {p q : ℚ} {m n : ℤ}

theorem of_lt (h : |q - m| < 1 / 2) : IsNearest q m :=
  ⟨h.le, fun he => absurd he h.ne⟩

theorem of_even (h : |q - m| = 1 / 2) (he : Even m) : IsNearest q m :=
  ⟨h.le, fun _ => he⟩

theorem intCast (m : ℤ) : IsNearest m m where
  near := by norm_num
  even h := by norm_num at h

theorem neg (h : IsNearest q m) : IsNearest (-q) (-m) := by
  have hdist : |-q - ((-m : ℤ) : ℚ)| = |q - m| := by
    rw [Int.cast_neg, ← abs_neg]
    ring_nf
  exact ⟨hdist ▸ h.near, fun he => (h.even (hdist ▸ he)).neg⟩

/-- Nearest integers are ordered like the ratios. -/
theorem mono (hp : IsNearest p m) (hq : IsNearest q n) (h : p ≤ q) : m ≤ n := by
  by_contra hlt
  have hmn : n + 1 ≤ m := by omega
  have hcast : (n : ℚ) + 1 ≤ m := by exact_mod_cast hmn
  have hm := abs_le.1 hp.near
  have hn := abs_le.1 hq.near
  -- both ratios lie halfway between the two integers, which cannot both be even
  have hpm : p - m = -(1 / 2) := by linarith
  have hqn : q - n = 1 / 2 := by linarith
  have hnext : m = n + 1 := by
    have hle : (m : ℚ) ≤ n + 1 := by linarith
    have hle : m ≤ n + 1 := by exact_mod_cast hle
    omega
  have heven := hp.even (by rw [hpm, abs_neg]; norm_num)
  have heven' := hq.even (by rw [hqn]; norm_num)
  rw [hnext, Int.even_add_one] at heven
  exact heven heven'

theorem le_of_le (h : IsNearest q m) (hn : (n : ℚ) ≤ q) : n ≤ m :=
  (intCast n).mono h hn

theorem ge_of_ge (h : IsNearest q m) (hn : q ≤ n) : m ≤ n :=
  h.mono (intCast n) hn

end IsNearest

/-! ## Significant digits -/

/-- The exponent of the last of so many significant digits. -/
def lastPlace (count : ℕ) (q : ℚ) : ℤ :=
  Int.log 10 |q| - count + 1

/-- The ratio `w` is `q` rounded to so many significant digits. -/
def IsRounded (count : ℕ) (q w : ℚ) : Prop :=
  ∃ m : ℤ, w = m * 10 ^ lastPlace count q ∧ IsNearest (q / 10 ^ lastPlace count q) m

theorem ten_zpow_pos (e : ℤ) : (0 : ℚ) < 10 ^ e :=
  zpow_pos (by norm_num) e

/-- The exponent of a ratio between two powers of ten. -/
theorem log_eq_of_bounds {q : ℚ} {e : ℤ} (hlow : (10 : ℚ) ^ e ≤ q) (hhigh : q < 10 ^ (e + 1)) : Int.log 10 q = e := by
  have hq : 0 < q := (ten_zpow_pos e).trans_le hlow
  have hle : e ≤ Int.log 10 q := (Int.zpow_le_iff_le_log (b := 10) (by decide) hq).1 (by exact_mod_cast hlow)
  have hlt : Int.log 10 q < e + 1 := (Int.lt_zpow_iff_log_lt (b := 10) (by decide) hq).1 (by exact_mod_cast hhigh)
  omega

namespace IsRounded

variable {count : ℕ} {p q v w : ℚ}

theorem neg (h : IsRounded count q w) : IsRounded count (-q) (-w) := by
  obtain ⟨m, rfl, hm⟩ := h
  have hplace : lastPlace count (-q) = lastPlace count q := by rw [lastPlace, abs_neg, lastPlace]
  refine ⟨-m, ?_, ?_⟩
  · rw [hplace, Int.cast_neg, neg_mul]
  · rw [hplace, neg_div]
    exact hm.neg

theorem nonneg (h : IsRounded count q w) (hq : 0 ≤ q) : 0 ≤ w := by
  obtain ⟨m, rfl, hm⟩ := h
  have hunit := ten_zpow_pos (lastPlace count q)
  have hzero : 0 ≤ m := hm.le_of_le (by rw [Int.cast_zero]; positivity)
  have hcast : (0 : ℚ) ≤ m := by exact_mod_cast hzero
  positivity

/-- A positive ratio divided by the unit of its last digit has as many digits in front of the point. -/
theorem scaled_bounds (hcount : 0 < count) (hq : 0 < q) :
    ((10 ^ (count - 1) : ℕ) : ℚ) ≤ q / 10 ^ lastPlace count q ∧ q / 10 ^ lastPlace count q < (10 ^ count : ℕ) := by
  have hunit := ten_zpow_pos (lastPlace count q)
  have hplace : lastPlace count q = Int.log 10 q - count + 1 := by rw [lastPlace, abs_of_pos hq]
  have hlow : (10 : ℚ) ^ Int.log 10 q ≤ q := by exact_mod_cast Int.zpow_log_le_self (b := 10) (by decide) hq
  have hhigh : q < (10 : ℚ) ^ (Int.log 10 q + 1) := by exact_mod_cast Int.lt_zpow_succ_log_self (b := 10) (by decide) q
  constructor
  · rw [le_div_iff₀ hunit, Nat.cast_pow, ← zpow_natCast, Nat.cast_ofNat, ← zpow_add₀ (by norm_num), hplace]
    rwa [show ((count - 1 : ℕ) : ℤ) + (Int.log 10 q - count + 1) = Int.log 10 q by omega]
  · rw [div_lt_iff₀ hunit, Nat.cast_pow, ← zpow_natCast, Nat.cast_ofNat, ← zpow_add₀ (by norm_num), hplace]
    rwa [show (count : ℤ) + (Int.log 10 q - count + 1) = Int.log 10 q + 1 by omega]

/-- A positive ratio keeps its leading power of ten, or is rounded up to the next one. -/
theorem bounds (hcount : 0 < count) (h : IsRounded count q w) (hq : 0 < q) :
    (10 : ℚ) ^ Int.log 10 q ≤ w ∧ w ≤ 10 ^ (Int.log 10 q + 1) := by
  obtain ⟨m, rfl, hm⟩ := h
  obtain ⟨hlow, hhigh⟩ := scaled_bounds hcount hq
  have hunit := ten_zpow_pos (lastPlace count q)
  have hplace : lastPlace count q = Int.log 10 q - count + 1 := by rw [lastPlace, abs_of_pos hq]
  have hmlow : ((10 ^ (count - 1) : ℕ) : ℤ) ≤ m := hm.le_of_le (by exact_mod_cast hlow)
  have hmhigh : m ≤ ((10 ^ count : ℕ) : ℤ) := hm.ge_of_ge (by exact_mod_cast hhigh.le)
  constructor
  · calc (10 : ℚ) ^ Int.log 10 q = ((10 ^ (count - 1) : ℕ) : ℚ) * 10 ^ lastPlace count q := by
          rw [Nat.cast_pow, ← zpow_natCast, Nat.cast_ofNat, ← zpow_add₀ (by norm_num), hplace]
          congr 1
          omega
      _ ≤ m * 10 ^ lastPlace count q := mul_le_mul_of_nonneg_right (by exact_mod_cast hmlow) hunit.le
  · calc m * 10 ^ lastPlace count q ≤ ((10 ^ count : ℕ) : ℚ) * 10 ^ lastPlace count q :=
          mul_le_mul_of_nonneg_right (by exact_mod_cast hmhigh) hunit.le
      _ = 10 ^ (Int.log 10 q + 1) := by
          rw [Nat.cast_pow, ← zpow_natCast, Nat.cast_ofNat, ← zpow_add₀ (by norm_num), hplace]
          congr 1
          omega

theorem mono_of_pos (hcount : 0 < count) (hv : IsRounded count p v) (hw : IsRounded count q w) (hp : 0 < p)
    (h : p ≤ q) : v ≤ w := by
  have hq : 0 < q := hp.trans_le h
  rcases (Int.log_mono_right (b := 10) hp h).lt_or_eq with hlt | heq
  · have hnext : Int.log 10 p + 1 ≤ Int.log 10 q := hlt
    calc v ≤ 10 ^ (Int.log 10 p + 1) := (hv.bounds hcount hp).2
      _ ≤ 10 ^ Int.log 10 q := zpow_le_zpow_right₀ (by norm_num) hnext
      _ ≤ w := (hw.bounds hcount hq).1
  · have hplace : lastPlace count p = lastPlace count q := by
      rw [lastPlace, lastPlace, abs_of_pos hp, abs_of_pos hq, heq]
    obtain ⟨m, rfl, hm⟩ := hv
    obtain ⟨n, rfl, hn⟩ := hw
    have hunit := ten_zpow_pos (lastPlace count q)
    rw [hplace] at hm ⊢
    have hmn : (m : ℚ) ≤ n := by exact_mod_cast hm.mono hn ((div_le_div_iff_of_pos_right hunit).2 h)
    exact mul_le_mul_of_nonneg_right hmn hunit.le

/-- Rounding keeps the order. -/
theorem mono (hcount : 0 < count) (hv : IsRounded count p v) (hw : IsRounded count q w) (h : p ≤ q) : v ≤ w := by
  rcases lt_or_ge 0 p with hp | hp
  · exact hv.mono_of_pos hcount hw hp h
  · have hvneg : 0 ≤ -v := hv.neg.nonneg (by linarith)
    rcases lt_or_ge q 0 with hq | hq
    · have hneg := hw.neg.mono_of_pos hcount hv.neg (by linarith) (by linarith)
      linarith
    · have hwnonneg := hw.nonneg hq
      linarith

end IsRounded

/-! ## Digits of natural numbers -/

/-- A number has so many digits. -/
theorem length_natDigits_eq_iff {n k : ℕ} (hn : 0 < n) :
    (natDigits n).length = k + 1 ↔ 10 ^ k ≤ n ∧ n < 10 ^ (k + 1) := by
  have hle : ∀ j, 0 < j → ((natDigits n).length ≤ j ↔ n < 10 ^ j) := fun j hj =>
    Nat.length_toDigits_le_iff (by decide) hj
  have hpos : 0 < (natDigits n).length := Nat.length_toDigits_pos
  have hnext := hle (k + 1) (Nat.succ_pos k)
  cases k with
  | zero => omega
  | succ k =>
    have hlast := hle (k + 1) (Nat.succ_pos k)
    omega

theorem natDigits_bounds {n : ℕ} (hn : 0 < n) :
    10 ^ ((natDigits n).length - 1) ≤ n ∧ n < 10 ^ (natDigits n).length := by
  have hpos : 0 < (natDigits n).length := Nat.length_toDigits_pos
  have h := (length_natDigits_eq_iff hn (k := (natDigits n).length - 1)).1 (by omega)
  rwa [Nat.sub_add_cancel hpos] at h

/-! ## Computed digits -/

namespace Binary64

variable {n d count : ℕ}

/-- The remainder of a division against a half. -/
theorem mod_div_lt_iff (n : ℕ) (hd : 0 < d) :
    (((n % d : ℕ) : ℚ) / d < 1 / 2 ↔ 2 * (n % d) < d) ∧ ((1 : ℚ) / 2 < (n % d : ℕ) / d ↔ d < 2 * (n % d)) := by
  have hdq : (0 : ℚ) < d := by exact_mod_cast hd
  rw [div_lt_div_iff₀ hdq two_pos, div_lt_div_iff₀ two_pos hdq, one_mul, mul_comm]
  exact ⟨by exact_mod_cast Iff.rfl, by exact_mod_cast Iff.rfl⟩

theorem isNearest_roundDiv (n : ℕ) (hd : 0 < d) : IsNearest ((n : ℚ) / d) (roundDiv n d) := by
  have hdq : (0 : ℚ) < d := by exact_mod_cast hd
  have hsplit : (n : ℚ) / d = (n / d : ℕ) + ((n % d : ℕ) : ℚ) / d := by
    rw [eq_comm, add_div' _ _ _ hdq.ne', div_left_inj' hdq.ne', mul_comm]
    exact_mod_cast Nat.div_add_mod n d
  obtain ⟨hlt, hgt⟩ := mod_div_lt_iff n hd
  have hnonneg : (0 : ℚ) ≤ (n % d : ℕ) / d := by positivity
  have hone : ((n % d : ℕ) : ℚ) / d < 1 := by
    rw [div_lt_one hdq]
    exact_mod_cast Nat.mod_lt n hd
  rw [hsplit]
  generalize ((n % d : ℕ) : ℚ) / d = r at hlt hgt hnonneg hone ⊢
  -- the distances from the two integers around
  have hbelow : |((n / d : ℕ) : ℚ) + r - ((n / d : ℕ) : ℤ)| = r := by
    rw [Int.cast_natCast, add_sub_cancel_left, abs_of_nonneg hnonneg]
  have habove : |((n / d : ℕ) : ℚ) + r - ((n / d + 1 : ℕ) : ℤ)| = 1 - r := by
    rw [Int.cast_natCast, Nat.cast_add_one, add_sub_add_left_eq_sub, abs_sub_comm, abs_of_pos (by linarith)]
  unfold roundDiv
  dsimp only
  split_ifs with hlow hhigh heven
  · exact .of_lt (by rw [hbelow]; exact hlt.2 hlow)
  · exact .of_lt (by rw [habove]; linarith [hgt.2 hhigh])
  all_goals have hhalf : r = 1 / 2 := le_antisymm (not_lt.1 (mt hgt.1 hhigh)) (not_lt.1 (mt hlt.1 hlow))
  · refine .of_even (by rw [hbelow, hhalf]) ?_
    rw [Int.even_coe_nat, Nat.even_iff]
    exact heven
  · refine .of_even (by rw [habove, hhalf]; norm_num) ?_
    rw [Int.even_coe_nat, Nat.even_iff]
    omega

theorem leadExponent_eq (hn : 0 < n) (hd : 0 < d) : leadExponent n d = Int.log 10 ((n : ℚ) / d) := by
  have hnq : (0 : ℚ) < n := by exact_mod_cast hn
  have hdq : (0 : ℚ) < d := by exact_mod_cast hd
  symm
  unfold leadExponent
  split_ifs with hle
  · obtain ⟨hlow, hhigh⟩ := natDigits_bounds (Nat.div_pos hle hd)
    have hpos : 0 < (natDigits (n / d)).length := Nat.length_toDigits_pos
    generalize (natDigits (n / d)).length = k at hlow hhigh hpos ⊢
    rw [Nat.le_div_iff_mul_le hd] at hlow
    rw [Nat.div_lt_iff_lt_mul hd] at hhigh
    apply log_eq_of_bounds
    · rw [le_div_iff₀ hdq, show (k : ℤ) - 1 = ((k - 1 : ℕ) : ℤ) by omega, zpow_natCast]
      exact_mod_cast hlow
    · rw [div_lt_iff₀ hdq, show (k : ℤ) - 1 + 1 = (k : ℕ) by omega, zpow_natCast]
      exact_mod_cast hhigh
  · obtain ⟨hlow, hhigh⟩ := natDigits_bounds (Nat.div_pos (show n ≤ d - 1 by omega) hn)
    have hpos : 0 < (natDigits ((d - 1) / n)).length := Nat.length_toDigits_pos
    generalize (natDigits ((d - 1) / n)).length = k at hlow hhigh hpos ⊢
    rw [Nat.le_div_iff_mul_le hn] at hlow
    rw [Nat.div_lt_iff_lt_mul hn] at hhigh
    have hbelow : 10 ^ (k - 1) * n < d := by omega
    have habove : d ≤ 10 ^ k * n := by omega
    apply log_eq_of_bounds
    · rw [zpow_neg, zpow_natCast, inv_eq_one_div, div_le_div_iff₀ (by positivity) hdq, one_mul, mul_comm]
      exact_mod_cast habove
    · rw [show -(k : ℤ) + 1 = -((k - 1 : ℕ) : ℤ) by omega, zpow_neg, zpow_natCast, inv_eq_one_div,
        div_lt_div_iff₀ hdq (by positivity), one_mul, mul_comm]
      exact_mod_cast hbelow

theorem isNearest_roundScaled (n : ℕ) (hd : 0 < d) (k : ℤ) : IsNearest ((n : ℚ) / d * 10 ^ k) (roundScaled n d k) := by
  unfold roundScaled
  split_ifs with hk
  · have h := isNearest_roundDiv (n * 10 ^ k.toNat) hd
    obtain ⟨j, rfl⟩ := Int.eq_ofNat_of_zero_le hk
    rw [Nat.cast_mul, Nat.cast_pow, Nat.cast_ofNat, mul_div_right_comm] at h
    exact h
  · have h := isNearest_roundDiv n (d := d * 10 ^ (-k).toNat) (by positivity)
    obtain ⟨j, hj⟩ := Int.eq_ofNat_of_zero_le (show 0 ≤ -k by omega)
    obtain rfl : k = -(j : ℤ) := by omega
    rw [Nat.cast_mul, Nat.cast_pow, Nat.cast_ofNat, ← div_div] at h
    rw [zpow_neg, ← div_eq_mul_inv]
    rw [Int.neg_neg] at h ⊢
    exact h

/-- The ratio that a decimal stands for. -/
def Decimal.value (t : Decimal) : ℚ :=
  t.digits * 10 ^ t.exponent

/-- The absolute value of a finite number. -/
def ratio (x : Binary64) : ℚ :=
  x.toRatio.1 / x.toRatio.2

theorem significant_of_zero {x : Binary64} (h : x.toRatio.1 = 0) (count : ℕ) : x.significant count = ⟨0, 1 - count⟩ :=
  if_pos h

theorem ratio_pos {x : Binary64} (h : 0 < x.toRatio.1) : 0 < x.ratio := by
  have hn : (0 : ℚ) < x.toRatio.1 := by exact_mod_cast h
  have hd : (0 : ℚ) < x.toRatio.2 := by exact_mod_cast x.toRatio_pos
  exact div_pos hn hd

/-- The rounded digits of a number that is not zero are as many as asked for, unless they carry. -/
theorem roundScaled_bounds {x : Binary64} (hcount : 0 < count) (h : 0 < x.toRatio.1) :
    let m := roundScaled x.toRatio.1 x.toRatio.2 (-lastPlace count x.ratio)
    IsNearest (x.ratio / 10 ^ lastPlace count x.ratio) m ∧ 10 ^ (count - 1) ≤ m ∧ m ≤ 10 ^ count := by
  intro m
  have hm : IsNearest (x.ratio / 10 ^ lastPlace count x.ratio) m := by
    rw [div_eq_mul_inv, ← zpow_neg]
    exact isNearest_roundScaled _ x.toRatio_pos _
  obtain ⟨hlow, hhigh⟩ := IsRounded.scaled_bounds hcount (ratio_pos h)
  have hmlow := hm.le_of_le (n := ((10 ^ (count - 1) : ℕ) : ℤ)) (by exact_mod_cast hlow)
  have hmhigh := hm.ge_of_ge (n := ((10 ^ count : ℕ) : ℤ)) (by exact_mod_cast hhigh.le)
  exact ⟨hm, Nat.cast_le.1 hmlow, Nat.cast_le.1 hmhigh⟩

/-- The digits of a number that is not zero are as many as asked for, and their decimal is the rounded number. -/
theorem significant_of_pos {x : Binary64} (hcount : 0 < count) (h : 0 < x.toRatio.1) :
    (10 ^ (count - 1) ≤ (x.significant count).digits ∧ (x.significant count).digits < 10 ^ count) ∧
      IsRounded count x.ratio (x.significant count).value := by
  have hplace : leadExponent x.toRatio.1 x.toRatio.2 - count + 1 = lastPlace count x.ratio := by
    rw [leadExponent_eq h x.toRatio_pos, lastPlace, abs_of_pos (ratio_pos h), ratio]
  obtain ⟨hm, hlow, hhigh⟩ := roundScaled_bounds hcount h
  have hrounded := fun w (hw : w = _) => (⟨_, hw, hm⟩ : IsRounded count x.ratio w)
  unfold significant
  dsimp only
  rw [if_neg h.ne', hplace]
  generalize roundScaled x.toRatio.1 x.toRatio.2 (-lastPlace count x.ratio) = m at hlow hhigh hrounded ⊢
  have hten : 10 ^ count = 10 ^ (count - 1) * 10 := by rw [← pow_succ, Nat.sub_add_cancel hcount]
  split_ifs with hcarry
  · -- the carry moves the digits by one place
    have hcarry : m = 10 ^ count := hcarry
    refine ⟨⟨le_refl _, ?_⟩, hrounded _ ?_⟩
    · change 10 ^ (count - 1) < 10 ^ count
      have hpos : 0 < 10 ^ (count - 1) := by positivity
      omega
    · change ((10 ^ (count - 1) : ℕ) : ℚ) * 10 ^ (lastPlace count x.ratio + 1) = _
      rw [hcarry, zpow_add_one₀ (by norm_num), hten]
      push_cast
      ring
  · have hcarry : m ≠ 10 ^ count := hcarry
    refine ⟨⟨hlow, by change m < _; omega⟩, hrounded _ ?_⟩
    rw [Decimal.value, Int.cast_natCast]

theorem isRounded_significant (x : Binary64) (hcount : 0 < count) :
    IsRounded count x.ratio (x.significant count).value := by
  rcases Nat.eq_zero_or_pos x.toRatio.1 with h | h
  · have hq : x.ratio = 0 := by rw [ratio, h, Nat.cast_zero, zero_div]
    refine ⟨0, ?_, ?_⟩
    · rw [significant_of_zero h, Decimal.value, Nat.cast_zero, zero_mul, Int.cast_zero, zero_mul]
    · rw [hq, zero_div]
      exact_mod_cast IsNearest.intCast 0
  · exact (significant_of_pos hcount h).2

end Binary64

end Scratchpad
