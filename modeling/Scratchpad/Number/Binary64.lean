/-!
# Floating point numbers

IEEE 754 numbers of 64 bits, held by their bits, so that equality is decidable and the sign of a number that is not a
number is kept. `toRatio` gives the exact value of a finite number and `nearest` the number closest to a ratio. An
operation without a defined result yields the negative quiet NaN; a NaN operand is passed on with its sign.
-/

namespace Scratchpad

/-- An IEEE 754 binary64 number by its bits. -/
structure Binary64 where
  bits : UInt64
  deriving DecidableEq, Hashable, Inhabited, Repr

namespace Binary64

/-! ## The parts of a number -/

/-- The sign bit. -/
def negative (x : Binary64) : Bool :=
  x.bits ≥ 0x8000000000000000

/-- The eleven bits of the exponent. -/
def exponentField (x : Binary64) : Nat :=
  (x.bits >>> 52).toNat % 0x800

/-- The 52 bits after the exponent. -/
def fraction (x : Binary64) : Nat :=
  x.bits.toNat % 0x10000000000000

def isNaN (x : Binary64) : Bool :=
  x.exponentField = 0x7FF && x.fraction ≠ 0

def isInfinite (x : Binary64) : Bool :=
  x.exponentField = 0x7FF && x.fraction = 0

def isFinite (x : Binary64) : Bool :=
  x.exponentField ≠ 0x7FF

/-- A finite number is `± significand * 2 ^ (scale - 1074)`. -/
def significand (x : Binary64) : Nat :=
  if x.exponentField = 0 then x.fraction else 0x10000000000000 + x.fraction

/-- See `significand`. -/
def scale (x : Binary64) : Nat :=
  x.exponentField - 1

/-- The absolute value of a finite number as numerator and denominator. -/
def toRatio (x : Binary64) : Nat × Nat :=
  if 1074 ≤ x.scale then (x.significand <<< (x.scale - 1074), 1)
  else (x.significand, 1 <<< (1074 - x.scale))

/-- A number from its sign and the rest of its bits. -/
def ofParts (negative : Bool) (magnitude : Nat) : Binary64 :=
  ⟨(magnitude % 0x8000000000000000 + (if negative then 0x8000000000000000 else 0)).toUInt64⟩

def zero : Binary64 := ⟨0⟩

def infinity (negative : Bool) : Binary64 :=
  ofParts negative 0x7FF0000000000000

/-- The quiet NaN with the given sign. -/
def nan (negative : Bool) : Binary64 :=
  ofParts negative 0x7FF8000000000000

/-! ## Rounding -/

/-- The integer nearest to `n / d`; a half goes to the even neighbour. -/
def roundDiv (n d : Nat) : Nat :=
  let q := n / d
  let r := n % d
  if 2 * r < d then q else if d < 2 * r then q + 1 else if q % 2 = 0 then q else q + 1

/-- The number with the given sign that is nearest to `n / d`. -/
def nearest (negative : Bool) (n d : Nat) : Binary64 :=
  if n = 0 then ofParts negative 0
  else
    -- `2 ^ (top - 1) < n / d < 2 ^ (top + 1)`
    let top : Int := (Nat.log2 n : Int) - Nat.log2 d
    let low (k : Int) : Bool := if 0 ≤ k then n < d <<< k.toNat else n <<< (-k).toNat < d
    let lead := if low top then top - 1 else top
    if 1024 ≤ lead then infinity negative
    else
      let unit := max (lead - 52) (-1074)
      let m := if 0 ≤ unit then roundDiv n (d <<< unit.toNat) else roundDiv (n <<< (-unit).toNat) d
      -- a carry into the next power of two moves into the exponent field by itself
      ofParts negative ((unit + 1074).toNat * 0x10000000000000 + m)

/-- The number nearest to an integer. -/
def ofInt (i : Int) : Binary64 :=
  nearest (i < 0) i.natAbs 1

/-- The number nearest to `m * 10 ^ e`. -/
def ofDecimal (negative : Bool) (m : Nat) (e : Int) : Binary64 :=
  -- far outside the range of exponents the value is infinite or zero, and the power need not be formed
  if m = 0 then ofParts negative 0
  else if 400 < e then infinity negative
  else if e < -400 - (Nat.log2 m : Int) then ofParts negative 0
  else if 0 ≤ e then nearest negative (m * Nat.pow 10 e.toNat) 1
  else nearest negative m (Nat.pow 10 (-e).toNat)

/-- The integer that a finite number without fractional part is. -/
def toInt? (x : Binary64) : Option Int :=
  if x.isFinite then
    let (n, d) := x.toRatio
    if n % d = 0 then some (if x.negative then -(n / d : Nat) else (n / d : Nat)) else none
  else none

/-- The greatest integer that is not above a finite number. -/
def floorInt (x : Binary64) : Int :=
  let (n, d) := x.toRatio
  if x.negative then -((n + d - 1) / d : Nat) else (n / d : Nat)

/-- The least integer that is not below a finite number. -/
def ceilInt (x : Binary64) : Int :=
  let (n, d) := x.toRatio
  if x.negative then -(n / d : Nat) else ((n + d - 1) / d : Nat)

/-! ## Order -/

/-- The order of `n / d` (negative if `s`) and an integer. -/
private def compareRatio (s : Bool) (n d : Nat) (i : Int) : Ordering :=
  compare (if s then -(n : Int) else (n : Int)) (i * d)

/-- The order of a number that is not NaN and an integer, compared exactly. -/
def compareInt (x : Binary64) (i : Int) : Ordering :=
  if x.isInfinite then (if x.negative then .lt else .gt)
  else compareRatio x.negative x.toRatio.1 x.toRatio.2 i

/-- A key that orders all numbers but NaN: `x < y` iff the key of `x` is below that of `y`. -/
def orderKey (x : Binary64) : Int :=
  let m : Int := (x.bits.toNat % 0x8000000000000000 : Nat)
  if x.negative then -m else m

def lt (x y : Binary64) : Bool :=
  !x.isNaN && !y.isNaN && x.orderKey < y.orderKey

def le (x y : Binary64) : Bool :=
  !x.isNaN && !y.isNaN && x.orderKey ≤ y.orderKey

/-- Equality of values: the two zeros are equal and a NaN differs from itself. -/
def sameValue (x y : Binary64) : Bool :=
  !x.isNaN && !y.isNaN && x.orderKey = y.orderKey

/-! ## Arithmetic -/

def toFloat (x : Binary64) : Float :=
  Float.ofBits x.bits

/-- The bits of a computed result; `sign` is the sign of the result if it is NaN. -/
def ofFloat (sign : Bool) (f : Float) : Binary64 :=
  if f.isNaN then nan sign else ⟨f.toBits⟩

/-- The sign of a NaN result: that of the first NaN operand, negative if no operand is NaN. -/
def nanSign (x y : Binary64) : Bool :=
  if x.isNaN then x.negative else if y.isNaN then y.negative else true

def neg (x : Binary64) : Binary64 :=
  ⟨x.bits ^^^ 0x8000000000000000⟩

def abs (x : Binary64) : Binary64 :=
  ⟨x.bits &&& 0x7FFFFFFFFFFFFFFF⟩

def add (x y : Binary64) : Binary64 :=
  ofFloat (nanSign x y) (x.toFloat + y.toFloat)

def sub (x y : Binary64) : Binary64 :=
  ofFloat (nanSign x y) (x.toFloat - y.toFloat)

def mul (x y : Binary64) : Binary64 :=
  ofFloat (nanSign x y) (x.toFloat * y.toFloat)

def div (x y : Binary64) : Binary64 :=
  ofFloat (nanSign x y) (x.toFloat / y.toFloat)

def pow (x y : Binary64) : Binary64 :=
  ofFloat (nanSign x y) (x.toFloat ^ y.toFloat)

def sqrt (x : Binary64) : Binary64 :=
  ofFloat (nanSign x x) x.toFloat.sqrt

/-- Rounds towards negative infinity; infinities, NaN and the zeros stay. -/
def floor (x : Binary64) : Binary64 :=
  ofFloat (nanSign x x) x.toFloat.floor

/-- Rounds towards positive infinity. -/
def ceil (x : Binary64) : Binary64 :=
  ofFloat (nanSign x x) x.toFloat.ceil

/-- The remainder with the sign of `x`, exact. -/
def fmod (x y : Binary64) : Binary64 :=
  if x.isNaN || y.isNaN then nan (nanSign x y)
  else if x.isInfinite || y.sameValue zero then nan true
  else if y.isInfinite then x
  else
    let (n, d) := x.toRatio
    let (k, e) := y.toRatio
    -- `n / d` modulo `k / e`, over the common denominator
    nearest x.negative (n * e % (k * d)) (d * e)

/-- The remainder with the sign of `y`. -/
def floorMod (x y : Binary64) : Binary64 :=
  let r := fmod x y
  if r.isNaN || r.sameValue zero then r
  else if r.negative = y.negative then r
  else r.add y

end Binary64

end Scratchpad
