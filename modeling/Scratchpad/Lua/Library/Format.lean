import Scratchpad.Lua.Library.Argument

/-!
# Formatted text

`string.format`: a text with directives, each a per cent sign, flags, a width, a precision and a letter. The letters are
`c d i u o x X a A e E f g G p q s`.
-/

namespace Scratchpad.Lua.Library

open Scratchpad.Lua.Comp Operation

/-! ## Directives -/

/-- A directive of a format. -/
structure Directive where
  /-- Its text, from the per cent sign on. -/
  text : Bytes
  left : Bool
  plus : Bool
  space : Bool
  alternate : Bool
  zero : Bool
  width : Nat
  precision : Option Nat
  letter : Char

namespace Directive

/-- The flags. -/
def flagChars : List Char := ['-', '+', ' ', '#', '0']

/-- The characters of flags, width and precision. -/
def isModifier (b : UInt8) : Bool :=
  Byte.isDigit b || b == byte '.' || flagChars.any fun c => b == byte c

/-- The number that digits stand for. -/
def value (ds : Bytes) : Nat :=
  Numeral.decimalValue ds

/-- Reads the directive with the given modifiers and letter. -/
def ofModifiers (modifiers : Bytes) (letter : UInt8) : Directive :=
  let isFlag (b : UInt8) : Bool := flagChars.any fun c => b == byte c
  let flags := modifiers.takeWhile isFlag
  let rest := modifiers.dropWhile isFlag
  let precision := match rest.dropWhile Byte.isDigit with
    | 46 :: r => some (value (r.takeWhile Byte.isDigit))
    | _ => none
  { text := byte '%' :: modifiers ++ [letter]
    left := flags.contains (byte '-'), plus := flags.contains (byte '+'), space := flags.contains (byte ' ')
    alternate := flags.contains (byte '#'), zero := flags.contains (byte '0')
    width := value (rest.takeWhile Byte.isDigit), precision, letter := Char.ofNat letter.toNat }

/-- At most two digits, and what follows them. -/
def dropTwoDigits (bs : Bytes) : Bytes :=
  let n := (bs.takeWhile Byte.isDigit).length
  bs.drop (min n 2)

/-- A directive is well formed if it consists of the flags that its letter allows, at most two digits of width and, where
a precision is allowed, at most two digits of that. -/
def isValid (d : Directive) (flags : List Char) (withPrecision : Bool) : Bool :=
  let rest := (d.text.drop 1).dropWhile fun b => flags.any fun c => b == byte c
  let rest := match rest with
    | 48 :: _ => rest
    | _ => match dropTwoDigits rest with
      | 46 :: r => if withPrecision then dropTwoDigits r else 46 :: r
      | r => r
  rest.head?.any Byte.isAlpha

/-- Fills a text up to the width with spaces. -/
def pad (d : Directive) (s : List Char) : List Char :=
  let fill := List.replicate (d.width - s.length) ' '
  if d.left then s ++ fill else fill ++ s

/-- Puts a sign and a mark before digits and fills up to the width, with zeros if `zeros`. -/
def padNumber (d : Directive) (zeros : Bool) (mark digits : List Char) : List Char :=
  if zeros && !d.left then mark ++ List.replicate (d.width - mark.length - digits.length) '0' ++ digits
  else d.pad (mark ++ digits)

/-- The sign of a number. -/
def sign (d : Directive) (negative : Bool) : List Char :=
  if negative then ['-'] else if d.plus then ['+'] else if d.space then [' '] else []

/-! ## Integers -/

/-- Digits with at least as many of them as the precision asks for; none for zero with precision zero. -/
def withPrecision (d : Directive) (isZero : Bool) (digits : List Char) : List Char :=
  match d.precision with
  | none => digits
  | some 0 => if isZero then [] else digits
  | some p => Binary64.padZeros p digits

def upper (cs : List Char) : List Char :=
  cs.map Char.toUpper

/-- An integer. The letters other than `d` and `i` show it without sign, modulo `2 ^ 64`. -/
def formatInt (d : Directive) (i : Int64) : List Char :=
  let zeros := d.zero && d.precision.isNone
  let n := i.toUInt64.toNat
  let digits (base : Nat) : List Char := d.withPrecision (i == 0) (Nat.toDigits base n)
  match d.letter with
  | 'o' =>
    let ds := digits 8
    d.padNumber zeros [] (if d.alternate && ds.head? != some '0' then '0' :: ds else ds)
  | 'x' => d.padNumber zeros (if d.alternate && i != 0 then ['0', 'x'] else []) (digits 16)
  | 'X' => d.padNumber zeros (if d.alternate && i != 0 then ['0', 'X'] else []) (upper (digits 16))
  | 'u' => d.padNumber zeros [] (digits 10)
  | _ => d.padNumber zeros (d.sign (i < 0)) (d.withPrecision (i == 0) (natDigits i.toInt.natAbs))

/-! ## Floating point numbers -/

/-- A number in hexadecimal, without sign and mark: one digit, a point, digits, and the exponent of two. -/
def hexForm (x : Binary64) (precision : Option Nat) (keepPoint : Bool) : List Char :=
  let lead := if x.exponentField = 0 then 0 else 1
  let m := lead * 0x10000000000000 + x.fraction
  let e : Int := if m = 0 then 0 else (max x.exponentField 1 : Nat) - 1023
  let (m, count) := match precision with
    | some p => if p < 13 then (Binary64.roundDiv m (1 <<< (4 * (13 - p))), p) else (m <<< (4 * (p - 13)), p)
    | none => (m, 13)
  let ds := Binary64.padZeros (count + 1) (Nat.toDigits 16 m)
  let part := ds.drop (ds.length - count)
  let part := if precision.isNone then Binary64.trimZeros part else part
  ds.take (ds.length - count) ++ (if part.isEmpty && keepPoint then ['.'] else Binary64.afterPoint part)
    ++ 'p' :: (if e < 0 then '-' else '+') :: natDigits e.natAbs

/-- Digits with a point before the exponent, if they have none. -/
def addPoint (cs : List Char) : List Char :=
  if cs.contains '.' then cs
  else cs.takeWhile (· != 'e') ++ '.' :: cs.dropWhile (· != 'e')

/-- A floating point number. -/
def formatFloat (d : Directive) (x : Binary64) : List Char :=
  let mark := d.sign x.negative
  let isUpper := d.letter.isUpper
  let shape (cs : List Char) : List Char := if isUpper then upper cs else cs
  if !x.isFinite then d.pad (mark ++ shape (if x.isNaN then ['n', 'a', 'n'] else ['i', 'n', 'f']))
  else
    let p := d.precision.getD 6
    let keepPoint (cs : List Char) : List Char := if d.alternate then addPoint cs else cs
    match d.letter.toLower with
    | 'a' => d.padNumber d.zero (mark ++ shape ['0', 'x']) (shape (hexForm x d.precision d.alternate))
    | 'e' => d.padNumber d.zero mark (shape (keepPoint (x.exponentForm p)))
    | 'f' => d.padNumber d.zero mark (keepPoint (x.fixedForm p))
    | _ => d.padNumber d.zero mark (shape (keepPoint (x.generalForm p d.alternate)))

end Directive

/-! ## Quoted values -/

/-- A string as a literal of the language. -/
def quotedBytes : Bytes → Bytes
  | [] => []
  | b :: bs =>
    let rest := quotedBytes bs
    if b == byte '"' || b == byte '\\' || b == 10 then byte '\\' :: b :: rest
    else if b < 32 || b == 127 then
      let ds := natDigits b.toNat
      let ds := if bs.head?.any Byte.isDigit then Binary64.padZeros 3 ds else ds
      byte '\\' :: bytes (String.ofList ds) ++ rest
    else b :: rest

/-- A floating point number as an expression that evaluates to it. -/
def quotedFloat (x : Binary64) : List Char :=
  if x.isNaN then "(0/0)".toList
  else if x.isInfinite then (if x.negative then "-1e9999" else "1e9999").toList
  else x.signText ++ '0' :: 'x' :: Directive.hexForm x none false

/-- The least integer, which has no decimal numeral. -/
def leastInteger : Int64 := Int64.minValue

/-- A value as a literal of the language. -/
def quoted (c : Call) (n : Nat) : Comp Bytes := do
  match c.arg n with
  | .str s => return byte '"' :: quotedBytes s ++ [byte '"']
  | .float x => return bytes (String.ofList (quotedFloat x))
  | .int i => return if i = leastInteger then bytes "0x8000000000000000" else (Number.int i).text
  | .nil => return bytes "nil"
  | .bool b => return bytes (if b then "true" else "false")
  | _ => c.argError n (bytes "value has no literal form")

/-! ## The function -/

/-- A value that has an address. -/
def isReference : Value → Bool
  | .table _ | .closure _ | .builtin _ | .thread _ | .userdata _ => true
  | _ => false

/-- A text no shorter than this is not padded. -/
def longText : Nat := 100

/-- The error of a directive that is not well formed. -/
def invalidDirective {α : Type} (d : Directive) : Comp α :=
  raiseHere (bytes "invalid conversion '" ++ d.text ++ bytes "' to 'format'")

/-- The text of argument `n` under a directive. -/
def formatArg (c : Call) (d : Directive) (n : Nat) : Comp Bytes := do
  let require (flags : List Char) (withPrecision : Bool) : Comp Unit :=
    if d.isValid flags withPrecision then pure () else invalidDirective d
  let plain (cs : List Char) : Bytes := bytes (String.ofList cs)
  let ints (flags : List Char) : Comp Bytes := do
    let i ← c.int n
    require flags true
    return plain (d.formatInt i)
  let floats : Comp Bytes := do
    let x ← c.float n
    require Directive.flagChars true
    return plain (d.formatFloat x)
  match d.letter with
  | 'c' =>
    require ['-'] false
    let b := (← c.int n).toUInt64.toNat.toUInt8
    let fill := plain (List.replicate (d.width - 1) ' ')
    return if d.left then b :: fill else fill ++ [b]
  | 'd' | 'i' => ints ['-', '+', '0', ' ']
  | 'u' => ints ['-', '0']
  | 'o' | 'x' | 'X' => ints ['-', '#', '0']
  | 'a' | 'A' =>
    require Directive.flagChars true
    return plain (d.formatFloat (← c.float n))
  | 'e' | 'E' | 'f' | 'g' | 'G' => floats
  | 'p' =>
    require ['-'] false
    let v := c.arg n
    return plain (d.pad (if isReference v then (address v).toList else "(null)".toList))
  | 'q' =>
    if d.text.length = 2 then quoted c n else raiseHere (bytes "specifier '%q' cannot have modifiers")
  | 's' =>
    let v ← c.any n
    let s ← textOf v
    if d.text.length = 2 then return s
    c.check n (!s.contains 0) "string contains zeros"
    require ['-'] true
    if d.precision.isNone && longText ≤ s.length then return s
    let s := match d.precision with
      | some p => s.take p
      | none => s
    let fill := plain (List.replicate (d.width - s.length) ' ')
    return if d.left then s ++ fill else fill ++ s
  | _ => invalidDirective d

/-- No directive has this many characters behind the per cent sign. -/
def maxDirective : Nat := 22

/-- Formats the rest of a text, whose next directive takes argument `n`. -/
def formatFrom (c : Call) : Nat → Nat → Bytes → Comp Bytes
  | 0, _, _ => pure []
  | _, _, [] => pure []
  | fuel + 1, n, b :: bs => do
    if b ≠ byte '%' then return b :: (← formatFrom c fuel n bs)
    match bs with
    | 37 :: bs => return b :: (← formatFrom c fuel n bs)
    | bs =>
      if c.args.length < n then c.argError n (bytes "no value")
      let modifiers := bs.takeWhile Directive.isModifier
      if maxDirective ≤ modifiers.length + 1 then raiseHere (bytes "invalid format string to 'format'")
      match bs.dropWhile Directive.isModifier with
      | [] => raiseHere (bytes "invalid conversion '%" ++ modifiers ++ bytes "' to 'format'")
      | letter :: rest =>
        let s ← formatArg c (Directive.ofModifiers modifiers letter) n
        return s ++ (← formatFrom c fuel (n + 1) rest)

/-- What `string.format` does; none of another function. -/
def format? (c : Call) : Option (Comp (List Value)) :=
  match c.func with
  | .strFormat => some do
    let s ← c.string 1
    return [.str (← formatFrom c s.length 2 s)]
  | _ => none

end Scratchpad.Lua.Library
