import Scratchpad.Text.Blank

/-!
# Integers in arguments

An integer may have a sign, white space around it, and single underscores between its digits, which are those of any
script.
-/

namespace Scratchpad

/-- The zeros of the scripts; the other digits of a script follow its zero. -/
def zeroPoints : List Nat :=
  [0x30, 0x660, 0x6F0, 0x7C0, 0x966, 0x9E6, 0xA66, 0xAE6, 0xB66, 0xBE6, 0xC66, 0xCE6, 0xD66, 0xDE6, 0xE50, 0xED0,
   0xF20, 0x1040, 0x1090, 0x17E0, 0x1810, 0x1946, 0x19D0, 0x1A80, 0x1A90, 0x1B50, 0x1BB0, 0x1C40, 0x1C50, 0xA620,
   0xA8D0, 0xA900, 0xA9D0, 0xA9F0, 0xAA50, 0xABF0, 0xFF10, 0x104A0, 0x10D30, 0x11066, 0x110F0, 0x11136, 0x111D0,
   0x112F0, 0x11450, 0x114D0, 0x11650, 0x116C0, 0x11730, 0x118E0, 0x11950, 0x11C50, 0x11D50, 0x11DA0, 0x16A60,
   0x16AC0, 0x16B50, 0x1D7CE, 0x1D7D8, 0x1D7E2, 0x1D7EC, 0x1D7F6, 0x1E140, 0x1E2F0, 0x1E950, 0x1FBF0]

/-- The value of a decimal digit of any script. -/
def digitValue? (c : Char) : Option Nat :=
  (zeroPoints.find? fun z => z ≤ c.toNat && c.toNat ≤ z + 9).map fun z => c.toNat - z

/-- A decimal digit of any script. -/
def isDecimalDigit (c : Char) : Bool :=
  (digitValue? c).isSome

namespace Integer

/-- White space that may stand around an integer: all but the information separators. -/
def isPadding (c : Char) : Bool :=
  Text.isSpace c && !(0x1C ≤ c.toNat && c.toNat ≤ 0x1F)

/-- The most digits that are read or written. -/
def maxDigits : Nat := 4300

/-- The digits of a numeral, if between two of them stands at most one underscore and nothing else. -/
def digits? : List Char → Option (List Nat)
  | [] => none
  | [c] => (digitValue? c).map fun d => [d]
  | c :: '_' :: r => do
    let d ← digitValue? c
    return d :: (← digits? r)
  | c :: r => do
    let d ← digitValue? c
    return d :: (← digits? r)

/-- The number that some digits make. -/
def ofDigits (ds : List Nat) : Nat :=
  ds.foldl (fun n d => n * 10 + d) 0

/-- The sign in front of a numeral and what follows it. -/
def splitSign : List Char → Bool × List Char
  | '-' :: r => (true, r)
  | '+' :: r => (false, r)
  | cs => (false, cs)

/-- Reads an integer. -/
def ofText? (s : String) : Option Int := do
  let cs := ((s.toList.dropWhile isPadding).reverse.dropWhile isPadding).reverse
  let (negative, numeral) := splitSign cs
  let ds ← digits? numeral
  guard (ds.length ≤ maxDigits)
  return if negative then -(ofDigits ds : Int) else ofDigits ds

/-- A text that is a negative number: digits after a minus, with a point before the last of them if there is one. One
line feed may follow. -/
def isNegative (s : String) : Bool :=
  match s.toList with
  | '-' :: r =>
    let r := if r.getLast? = some '\n' then r.dropLast else r
    let rest := r.dropWhile isDecimalDigit
    match rest with
    | [] => !r.isEmpty
    | '.' :: fraction => !fraction.isEmpty && fraction.all isDecimalDigit
    | _ => false
  | _ => false

end Integer

end Scratchpad
