import Scratchpad.Lua.Bytes
import Scratchpad.Number.Text

/-!
# Numerals

Reading the numerals of the language: decimal and hexadecimal integers and floating point numbers, with white space
around them and a sign in front. A decimal integer out of range is read as a floating point number; a hexadecimal one
wraps around.
-/

namespace Scratchpad.Lua

/-- A number of the language. -/
inductive Number where
  | int (i : Int64)
  | float (x : Binary64)
  deriving DecidableEq, Repr

namespace Numeral

/-- A sign in front of a numeral: whether it is a minus, and what follows. -/
def splitSign : Bytes → Bool × Bytes
  | 45 :: r => (true, r)
  | 43 :: r => (false, r)
  | bs => (false, bs)

/-- The text without the white space around it. -/
def trim (bs : Bytes) : Bytes :=
  ((bs.dropWhile Byte.isSpace).reverse.dropWhile Byte.isSpace).reverse

/-- The value of decimal digits. -/
def decimalValue (ds : Bytes) : Nat :=
  ds.foldl (fun n d => n * 10 + (d.toNat - 48)) 0

/-- The value of hexadecimal digits. -/
def hexValue (ds : Bytes) : Nat :=
  ds.foldl (fun n d => n * 16 + (Byte.hexValue? d).getD 0) 0

/-- What follows the mark of a hexadecimal numeral. -/
def afterHexMark? : Bytes → Option Bytes
  | 48 :: x :: r => if x == byte 'x' || x == byte 'X' then some r else none
  | _ => none

/-- An integer without white space and sign. -/
def readInt? (negative : Bool) (bs : Bytes) : Option Int64 :=
  match afterHexMark? bs with
  | some ds =>
    if !ds.isEmpty && ds.all Byte.isHex then
      let n := Int64.ofNat (hexValue ds)
      some (if negative then -n else n)
    else none
  | none =>
    if !bs.isEmpty && bs.all Byte.isDigit then
      let n := decimalValue bs
      if n < 0x8000000000000000 || negative && n = 0x8000000000000000 then
        some (if negative then Int64.ofInt (-n) else Int64.ofNat n)
      else none
    else none

/-- An exponent behind one of the letters `marks`; zero if nothing is left. -/
def readExponent? (lower upper : Char) : Bytes → Option Int
  | [] => some 0
  | e :: r =>
    if e == byte lower || e == byte upper then
      let (negative, ds) := splitSign r
      if !ds.isEmpty && ds.all Byte.isDigit then
        some (if negative then -(decimalValue ds : Int) else decimalValue ds)
      else none
    else none

/-- The digits before and after the point, and the rest. -/
def splitPoint (isDigit : UInt8 → Bool) (bs : Bytes) : Bytes × Bytes × Bytes :=
  let whole := bs.takeWhile isDigit
  match bs.dropWhile isDigit with
  | 46 :: r => (whole, r.takeWhile isDigit, r.dropWhile isDigit)
  | r => (whole, [], r)

/-- `n * 2 ^ e` rounded to a floating point number. -/
def scaleBinary (negative : Bool) (n : Nat) (e : Int) : Binary64 :=
  if n = 0 then Binary64.ofParts negative 0
  else
    let top := (Nat.log2 n : Int) + e
    if 1100 < top then Binary64.infinity negative
    else if top < -1200 then Binary64.ofParts negative 0
    else if 0 ≤ e then Binary64.nearest negative (n <<< e.toNat) 1
    else Binary64.nearest negative n (1 <<< (-e).toNat)

/-- A floating point number without white space and sign. -/
def readFloat? (negative : Bool) (bs : Bytes) : Option Binary64 :=
  match afterHexMark? bs with
  | some r => do
    let (whole, part, rest) := splitPoint Byte.isHex r
    guard (!(whole.isEmpty && part.isEmpty))
    let e ← readExponent? 'p' 'P' rest
    return scaleBinary negative (hexValue (whole ++ part)) (e - 4 * part.length)
  | none => do
    let (whole, part, rest) := splitPoint Byte.isDigit bs
    guard (!(whole.isEmpty && part.isEmpty))
    let e ← readExponent? 'e' 'E' rest
    return Binary64.ofDecimal negative (decimalValue (whole ++ part)) (e - part.length)

end Numeral

/-- The number that a text stands for. -/
def readNumber? (bs : Bytes) : Option Number :=
  let (negative, ds) := Numeral.splitSign (Numeral.trim bs)
  match Numeral.readInt? negative ds with
  | some i => some (.int i)
  | none => (Numeral.readFloat? negative ds).map .float

/-- The text of a number. -/
def Number.text : Number → Bytes
  | int i => bytes (String.ofList (intText i.toInt))
  | float x => bytes (String.ofList (floatText x))

end Scratchpad.Lua
