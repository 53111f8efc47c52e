import Scratchpad.Number.Decimal
import Scratchpad.Number.Integer

/-!
# Numbers as text

The texts of integers and floating point numbers in the Lua language. A numeral of a floating point number always holds
a point or an exponent, so it is never that of an integer. An integer of any size has a numeral, but one of more than
`Integer.maxDigits` digits is not written.
-/

namespace Scratchpad

/-- The decimal numeral of an integer, however long. -/
def intText (i : Int) : List Char :=
  (if i < 0 then ['-'] else []) ++ natDigits i.natAbs

/-- A character of an integer's text. -/
def isIntChar (c : Char) : Bool :=
  c == '-' || c.isDigit

/-- A floating point number with fourteen significant digits. A numeral without point or exponent gets `.0`. -/
def floatText (x : Binary64) : List Char :=
  let t := x.general 14
  if t.all isIntChar then t ++ ['.', '0'] else t

/-- The integer has too many digits to be written; the sign does not count. -/
def Integer.isTooLong (i : Int) : Bool :=
  Integer.maxDigits < (natDigits i.natAbs).length

/-- The message about an integer that is too long. -/
def Integer.tooLongMessage : String :=
  "Exceeds the limit (" ++ toString Integer.maxDigits ++ " digits) for integer string conversion; "
    ++ "use sys.set_int_max_str_digits() to increase the limit"

/-- A number to be written. The truth values count as integers. -/
inductive Numeric where
  | bool (b : Bool)
  | int (i : Int)
  | float (x : Binary64)
  deriving DecidableEq, Repr

/-- The text of a number, or the message about an integer that is too long. -/
def Numeric.text? : Numeric → Except String (List Char)
  | .bool b => .ok (if b then "true" else "false").toList
  | .int i => if Integer.isTooLong i then .error Integer.tooLongMessage else .ok (intText i)
  | .float x => .ok (floatText x)

end Scratchpad
