import Scratchpad.Text.Lines
import Scratchpad.Yaml.Scalar

/-!
# Tags

The tag of a node tells what its text stands for. A plain scalar without a tag gets one by its form (`Tag.ofPlain`): the
words for truth values and nothing, the numerals, dates, and two marks that keys can be.
-/

namespace Scratchpad.Yaml

inductive Tag where
  | null | bool | int | float | binary | timestamp | str
  | seq | omap | pairs
  | map | set
  /-- A key of this tag takes over the entries of its value. -/
  | merge
  /-- A key of this tag holds the text that a map stands for. -/
  | value
  | other (name : String)
  deriving DecidableEq, Repr

namespace Tag

/-- The beginning of the tags of this language. -/
def standard : String := "tag:yaml.org,2002:"

/-- The tags by their names. -/
def names : List (String × Tag) :=
  [("null", null), ("bool", bool), ("int", int), ("float", float), ("binary", binary), ("timestamp", timestamp),
   ("str", str), ("seq", seq), ("omap", omap), ("pairs", pairs), ("map", map), ("set", set), ("merge", merge),
   ("value", value)]

/-- The tag of a full name. -/
def ofName (name : String) : Tag :=
  match names.find? fun e => standard ++ e.1 == name with
  | some (_, t) => t
  | none => other name

/-! ## The forms of plain scalars -/

/-- The words for truth values. -/
def boolWords : List (String × Bool) :=
  [("yes", true), ("no", false), ("true", true), ("false", false), ("on", true), ("off", false)]

/-- A word in lower case, upper case, or with its first letter in upper case. -/
def spellings (word : String) : List (List Char) :=
  let cs := word.toList
  [cs, cs.map Char.toUpper, (cs.take 1).map Char.toUpper ++ cs.drop 1]

def isBool (cs : List Char) : Bool :=
  boolWords.any fun w => (spellings w.1).contains cs

def isNull (cs : List Char) : Bool :=
  cs == [] || cs == ['~'] || (spellings "null").contains cs

/-- A text without the sign in front. -/
def unsigned : List Char → List Char
  | '-' :: r => r
  | '+' :: r => r
  | cs => cs

/-- Not empty, and all characters of a kind. -/
def someOf (kind : Char → Bool) (cs : List Char) : Bool :=
  !cs.isEmpty && cs.all kind

def isDigitOrBar (c : Char) : Bool :=
  c.isDigit || c == '_'

/-- A digit followed by digits and underscores. -/
def isDigits (cs : List Char) : Bool :=
  cs.head?.any Char.isDigit && cs.all isDigitOrBar

/-- A number below 60 of one or two digits. -/
def isSixtieth : List Char → Bool
  | [a] => a.isDigit
  | [a, b] => '0' ≤ a && a ≤ '5' && b.isDigit
  | _ => false

/-- The parts of a text between colons. -/
def colonParts (cs : List Char) : List (List Char) :=
  Text.splitAtChar ':' cs

/-- Digits and numbers below 60, with colons between them; there is at least one colon. -/
def isSexagesimal (cs : List Char) : Bool :=
  match colonParts cs with
  | p :: q :: ps => isDigits p && (q :: ps).all isSixtieth
  | _ => false

def isInt (cs : List Char) : Bool :=
  match unsigned cs with
  | '0' :: 'b' :: r => someOf (fun c => c == '0' || c == '1' || c == '_') r
  | '0' :: 'x' :: r => someOf (fun c => c == '_' || (Scalar.hexValue? c).isSome) r
  | '0' :: r => r.all fun c => c == '_' || ('0' ≤ c && c ≤ '7')
  | r => isDigits r || isSexagesimal r

/-- Nothing, or an exponent with its sign. -/
def isExponent : List Char → Bool
  | [] => true
  | e :: s :: r => (e == 'e' || e == 'E') && (s == '-' || s == '+') && someOf Char.isDigit r
  | _ => false

/-- What follows the point of a number: digits and underscores, and an exponent. -/
def isFraction (cs : List Char) : Bool :=
  isExponent (cs.dropWhile isDigitOrBar)

def isFloat (cs : List Char) : Bool :=
  let u := unsigned cs
  let whole := u.takeWhile (· != '.')
  match u.dropWhile (· != '.') with
  | [] => false
  | _ :: r =>
    if whole.isEmpty then
      (spellings "inf").contains r ||
        (cs.head? == some '.' && ((r.head?.any Char.isDigit && isFraction r) || ["nan", "NaN", "NAN"].contains (String.ofList r)))
    else (isDigits whole && isFraction r) || (isSexagesimal whole && r.all isDigitOrBar)

/-! ### Dates -/

/-- The parts of a date and of the time behind it. -/
structure Moment where
  year : Nat
  month : Nat
  day : Nat
  /-- Hour, minute, second, millionths, and the minutes that the place is ahead. -/
  clock : Option (Nat × Nat × Nat × Nat × Option Int)
  deriving Repr

/-- The value of digits. -/
def digitsValue (cs : List Char) : Nat :=
  cs.foldl (fun n c => n * 10 + (c.toNat - 48)) 0

/-- A number of `least` to `most` digits at the front of a text. -/
def digits? (least most : Nat) (cs : List Char) : Option (Nat × List Char) :=
  let ds := (cs.take most).takeWhile Char.isDigit
  if least ≤ ds.length then some (digitsValue ds, cs.drop ds.length) else none

/-- A text without a character in front. -/
def after? (c : Char) : List Char → Option (List Char)
  | d :: r => if d = c then some r else none
  | [] => none

/-- The place behind a time, in minutes ahead. -/
def zone? (cs : List Char) : Option (Option Int) :=
  match cs.dropWhile isBlank with
  | [] => if cs.isEmpty then some none else none
  | ['Z'] => some (some 0)
  | s :: r => do
    guard (s == '-' || s == '+')
    let (hours, r) ← digits? 1 2 r
    let minutes ← match r with
      | [] => some 0
      | r => do
        let (m, r) ← digits? 2 2 (← after? ':' r)
        guard r.isEmpty
        some m
    let n : Int := hours * 60 + minutes
    return some (if s == '-' then -n else n)

/-- Digits as millionths. -/
def millionths (ds : List Char) : Nat :=
  digitsValue ((ds ++ List.replicate 6 '0').take 6)

/-- The date, with the time, that a text is written as. -/
def moment? (cs : List Char) : Option Moment := do
  let (year, r) ← digits? 4 4 cs
  let (month, r) ← digits? 1 2 (← after? '-' r)
  let (day, r) ← digits? 1 2 (← after? '-' r)
  match r with
  | [] =>
    guard (cs.length = 10)
    return ⟨year, month, day, none⟩
  | c :: r =>
    guard (c == 'T' || c == 't' || isBlank c)
    let r := if isBlank c then r.dropWhile isBlank else r
    let (hour, r) ← digits? 1 2 r
    let (minute, r) ← digits? 2 2 (← after? ':' r)
    let (second, r) ← digits? 2 2 (← after? ':' r)
    let (fraction, r) := match r with
      | '.' :: r => (millionths (r.takeWhile Char.isDigit), r.dropWhile Char.isDigit)
      | r => (0, r)
    let zone ← zone? r
    return ⟨year, month, day, some (hour, minute, second, fraction, zone)⟩

/-- The tag of a plain scalar that has none of its own. -/
def ofPlain (text : String) : Tag :=
  let cs := text.toList
  if isBool cs then bool
  else if isFloat cs then float
  else if isInt cs then int
  else if text == "<<" then merge
  else if isNull cs then null
  else if (moment? cs).isSome then timestamp
  else if text == "=" then value
  else str

end Tag

end Scratchpad.Yaml
