import Scratchpad.Number.Binary64

/-!
# Floating point numbers in decimal

Exact decimal digits of floating point numbers: a given count of significant digits (`significant`), a given count of
places after the point (`places`), and the fewest digits that read back (`shortest`). The layouts built on them are the
exponent form, the fixed form and the general form of formatted output, and the shortest form.
-/

namespace Scratchpad

/-- The decimal digits of a natural number. -/
def natDigits (n : Nat) : List Char :=
  Nat.toDigits 10 n

namespace Binary64

/-! ## Digits -/

/-- A decimal `digits * 10 ^ exponent`, of a number without its sign. -/
structure Decimal where
  digits : Nat
  exponent : Int
  deriving DecidableEq, Repr

/-- The exponent of the first significant digit of `n / d`, which is positive. -/
def leadExponent (n d : Nat) : Int :=
  if d ≤ n then ((natDigits (n / d)).length : Int) - 1
  else -((natDigits ((d - 1) / n)).length : Int)

/-- The integer nearest to `n / d * 10 ^ k`. -/
def roundScaled (n d : Nat) (k : Int) : Nat :=
  if 0 ≤ k then roundDiv (n * Nat.pow 10 k.toNat) d else roundDiv n (d * Nat.pow 10 (-k).toNat)

/-- A finite number rounded to `count` significant digits; zero has the exponent of its last zero. -/
def significant (x : Binary64) (count : Nat) : Decimal :=
  let (n, d) := x.toRatio
  if n = 0 then ⟨0, 1 - count⟩
  else
    let last := leadExponent n d - count + 1
    let m := roundScaled n d (-last)
    if m = Nat.pow 10 count then ⟨Nat.pow 10 (count - 1), last + 1⟩ else ⟨m, last⟩

/-- A finite number times `10 ^ count`, rounded. -/
def places (x : Binary64) (count : Nat) : Nat :=
  roundScaled x.toRatio.1 x.toRatio.2 count

/-- The number is the one nearest to the decimal. -/
def readsBack (x : Binary64) (t : Decimal) : Bool :=
  ofDecimal x.negative t.digits t.exponent = x

/-- The best decimal of `count` digits that reads back: of the neighbours of the number on that grid the nearer one
that does. -/
def tryDigits (x : Binary64) (count : Nat) : Option Decimal :=
  let (n, d) := x.toRatio
  let last := leadExponent n d - count + 1
  let near := roundScaled n d (-last)
  let below := if 0 ≤ -last then n * Nat.pow 10 (-last).toNat / d else n / (d * Nat.pow 10 last.toNat)
  let far := if near = below then below + 1 else below
  if x.readsBack ⟨near, last⟩ then some ⟨near, last⟩
  else if x.readsBack ⟨far, last⟩ then some ⟨far, last⟩
  else none

/-- The shortest decimal that reads back as the finite number. Seventeen digits always do. -/
def shortest (x : Binary64) : Decimal :=
  if x.toRatio.1 = 0 then ⟨0, 0⟩
  else ((List.range 17).findSome? fun i => x.tryDigits (i + 1)).getD (x.significant 17)

/-! ## Layouts -/

/-- The digits padded with zeros in front to at least `width`. -/
def padZeros (width : Nat) (ds : List Char) : List Char :=
  List.replicate (width - ds.length) '0' ++ ds

/-- The digits without the zeros at the end. -/
def trimZeros (ds : List Char) : List Char :=
  (ds.reverse.dropWhile (· == '0')).reverse

/-- A point before the digits, or nothing if there are none. -/
def afterPoint (ds : List Char) : List Char :=
  if ds.isEmpty then [] else '.' :: ds

/-- The exponent of the exponent form: a sign and at least two digits. -/
def exponentText (e : Int) : List Char :=
  'e' :: (if e < 0 then '-' else '+') :: padZeros 2 (natDigits e.natAbs)

/-- The sign of a number. -/
def signText (x : Binary64) : List Char :=
  if x.negative then ['-'] else []

/-- The texts of the numbers that have no digits. -/
def specialText (x : Binary64) : List Char :=
  x.signText ++ (if x.isNaN then ['n', 'a', 'n'] else ['i', 'n', 'f'])

/-- The digits `ds`, the first of which stands for `10 ^ e`, in positional notation. -/
def positional (ds : List Char) (e : Int) : List Char × List Char :=
  if e < 0 then (['0'], List.replicate ((-e).toNat - 1) '0' ++ ds)
  else
    let k := e.toNat + 1
    (ds.take k ++ List.replicate (k - ds.length) '0', ds.drop k)

/-- Exponent form without sign: one digit, a point, `count` digits, the exponent. -/
def exponentForm (x : Binary64) (count : Nat) : List Char :=
  let t := x.significant (count + 1)
  let ds := padZeros (count + 1) (natDigits t.digits)
  let e := if t.digits = 0 then 0 else t.exponent + count
  ds.take 1 ++ afterPoint (ds.drop 1) ++ exponentText e

/-- Fixed form without sign: the integer part, a point, `count` digits. -/
def fixedForm (x : Binary64) (count : Nat) : List Char :=
  let ds := padZeros (count + 1) (natDigits (x.places count))
  let k := ds.length - count
  ds.take k ++ afterPoint (ds.drop k)

/-- General form without sign: `count` significant digits, in fixed form if the exponent is at least -4 and below
`count` and in exponent form otherwise, without zeros at the end unless `keepZeros`. -/
def generalForm (x : Binary64) (count : Nat) (keepZeros : Bool) : List Char :=
  let count := max count 1
  let t := x.significant count
  let e := if t.digits = 0 then 0 else t.exponent + count - 1
  let ds := padZeros count (natDigits t.digits)
  let trim (ds : List Char) := if keepZeros then ds else trimZeros ds
  if e < -4 ∨ (count : Int) ≤ e then ds.take 1 ++ afterPoint (trim (ds.drop 1)) ++ exponentText e
  else
    let (whole, rest) := positional ds e
    whole ++ afterPoint (trim rest)

/-- The general form with `count` digits and its sign, also of infinities and NaN. -/
def general (x : Binary64) (count : Nat) : List Char :=
  if x.isFinite then x.signText ++ x.generalForm count false else x.specialText

/-- The shortest text that reads back: positional for exponents from -4 to 15, with at least one digit after the point,
and exponent form otherwise. A NaN has no sign. -/
def shortestText (x : Binary64) : String :=
  if x.isNaN then "nan"
  else if x.isInfinite then String.ofList x.specialText
  else
    let t := x.shortest
    let ds := natDigits t.digits
    let e := if t.digits = 0 then 0 else t.exponent + ds.length - 1
    let ds := trimZeros ds
    let ds := if ds.isEmpty then ['0'] else ds
    if e < -4 ∨ 16 ≤ e then
      String.ofList (x.signText ++ ds.take 1 ++ afterPoint (ds.drop 1) ++ exponentText e)
    else
      let (whole, rest) := positional ds e
      String.ofList (x.signText ++ whole ++ afterPoint (if rest.isEmpty then ['0'] else rest))

end Binary64

end Scratchpad
