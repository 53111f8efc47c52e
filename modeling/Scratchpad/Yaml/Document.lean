import Scratchpad.Plain
import Scratchpad.Yaml.Node

/-!
# Documents

The plain data that a YAML text stands for (`Plain.ofYaml?`). Scalars are read as their tags say. A map takes over the
entries of the maps that it merges, and then has its own; of equal keys the last one counts. Keys must not be lists, sets
or maps.
-/

namespace Scratchpad.Yaml

/-! ## Numbers -/

/-- The value of digits in a base; none if there are none or if one is not of the base. -/
def natOf? (base : Nat) (cs : List Char) : Option Nat :=
  if cs.isEmpty then none
  else cs.foldlM (fun n c => do
    let d ← Scalar.hexValue? c
    guard (d < base)
    return n * base + d) 0

/-- The sum of parts that each weigh sixty times the next one. -/
def sixtieths? (parts : List (List Char)) : Option Nat :=
  parts.foldlM (fun n p => (natOf? 10 p).map (n * 60 + ·)) 0

/-- The integer of a numeral. -/
def intOf? (cs : List Char) : Option Int := do
  let cs := cs.filter (· != '_')
  let n ← match Tag.unsigned cs with
    | '0' :: 'b' :: r => natOf? 2 r
    | '0' :: 'x' :: r => natOf? 16 r
    | '0' :: r => if r.isEmpty then some 0 else natOf? 8 r
    | r => sixtieths? (Tag.colonParts r)
  return if cs.head? == some '-' then -n else n

/-- The value of a decimal: digits, a point, digits, an exponent. -/
def decimalOf? (cs : List Char) : Option Binary64 := do
  let whole := cs.takeWhile Char.isDigit
  let (part, r) := match cs.dropWhile Char.isDigit with
    | '.' :: r => (r.takeWhile Char.isDigit, r.dropWhile Char.isDigit)
    | r => ([], r)
  guard (!(whole.isEmpty && part.isEmpty))
  let e : Int ← match r with
    | [] => some 0
    | c :: r => do
      guard (c == 'e' || c == 'E')
      let n ← natOf? 10 (Tag.unsigned r)
      some (if r.head? == some '-' then -n else n)
  let digits ← natOf? 10 (whole ++ part)
  return Binary64.ofDecimal false digits (e - part.length)

/-- The sum of parts, the first one weighing least, by `weight` and sixty times that for each further one. -/
def weighted (weight : Nat) (sum : Binary64) : List Binary64 → Binary64
  | [] => sum
  | x :: xs => weighted (weight * 60) (sum.add (x.mul (.ofInt weight))) xs

/-- The floating point number of a numeral. -/
def floatOf? (cs : List Char) : Option Binary64 := do
  let cs := (cs.filter (· != '_')).map Char.toLower
  let negative := cs.head? == some '-'
  let u := Tag.unsigned cs
  let x ←
    if u == ".inf".toList then some (Binary64.infinity false)
    else if u == ".nan".toList then return Binary64.nan true
    else match Tag.colonParts u with
      | [p] => decimalOf? p
      | ps => do return weighted 1 .zero (← ps.mapM decimalOf?).reverse
  return if negative then x.neg else x

/-! ## Dates -/

def isLeap (year : Nat) : Bool :=
  year % 4 == 0 && (year % 100 != 0 || year % 400 == 0)

/-- The number of days of a month. -/
def daysOf (year month : Nat) : Nat :=
  if month = 2 then (if isLeap year then 29 else 28)
  else if [4, 6, 9, 11].contains month then 30 else 31

/-- A number with zeros in front. -/
def padded (width n : Nat) : String :=
  String.ofList (Binary64.padZeros width (natDigits n))

/-- The text of a place behind a time. -/
def zoneText (minutes : Int) : String :=
  let n := minutes.natAbs
  (if minutes < 0 then "-" else "+") ++ padded 2 (n / 60) ++ ":" ++ padded 2 (n % 60)

/-- The text of a place inside another value. -/
def zoneWritten (minutes : Int) : String :=
  if minutes = 0 then "datetime.timezone.utc"
  else
    let seconds := minutes * 60
    let delta := if seconds < 0 then "days=-1, seconds=" ++ toString (seconds + 86400) else "seconds=" ++ toString seconds
    "datetime.timezone(datetime.timedelta(" ++ delta ++ "))"

/-- The minutes of a day. -/
def dayMinutes : Nat := 1440

/-- A date or a point in time, if there is such a day and time. -/
def stampOf? (m : Tag.Moment) : Option Plain := do
  guard (1 ≤ m.year && 1 ≤ m.month && m.month ≤ 12 && 1 ≤ m.day && m.day ≤ daysOf m.year m.month)
  let date := padded 4 m.year ++ "-" ++ padded 2 m.month ++ "-" ++ padded 2 m.day
  let numbers (ns : List Nat) : String := ", ".intercalate (ns.map toString)
  match m.clock with
  | none => return .stamp false date ("datetime.date(" ++ numbers [m.year, m.month, m.day] ++ ")")
  | some (hour, minute, second, fraction, zone) =>
    guard (hour < 24 && minute < 60 && second < 60 && zone.all fun z => z.natAbs < dayMinutes)
    let time := padded 2 hour ++ ":" ++ padded 2 minute ++ ":" ++ padded 2 second
    let shown := date ++ " " ++ time ++ (if fraction = 0 then "" else "." ++ padded 6 fraction) ++
      (zone.map zoneText).getD ""
    let tail := if fraction ≠ 0 then [second, fraction] else if second ≠ 0 then [second] else []
    let place := (zone.map fun z => ", tzinfo=" ++ zoneWritten z).getD ""
    return .stamp true shown
      ("datetime.datetime(" ++ numbers ([m.year, m.month, m.day, hour, minute] ++ tail) ++ place ++ ")")

/-! ## Bytes -/

/-- The value of a character of a text that encodes six bits a character. -/
def sixBits? (c : Char) : Option Nat :=
  if c.isUpper then some (c.toNat - 65)
  else if c.isLower then some (c.toNat - 71)
  else if c.isDigit then some (c.toNat + 4)
  else if c == '+' then some 62
  else if c == '/' then some 63
  else none

/-- The bytes of the rest of such a text: `group` are the values since the last full group of four, and `signs` counts
the equals signs since the last value. -/
def bytesOf? (group : List Nat) (signs : Nat) : List Char → Option (List UInt8)
  | [] => if group.isEmpty then some [] else none
  | c :: r =>
    if c == '=' then
      if 2 ≤ group.length && 4 ≤ group.length + signs + 1 then
        match group with
        | [a, b] => some [(a * 4 + b / 16).toUInt8]
        | [a, b, d] => some [(a * 4 + b / 16).toUInt8, (b % 16 * 16 + d / 4).toUInt8]
        | _ => some []
      else bytesOf? group (if 2 ≤ group.length then signs + 1 else signs) r
    else match sixBits? c with
      | none => bytesOf? group signs r
      | some v =>
        match group with
        | [a, b, d] => do
          let rest ← bytesOf? [] 0 r
          return (a * 4 + b / 16).toUInt8 :: (b % 16 * 16 + d / 4).toUInt8 :: (d % 4 * 64 + v).toUInt8 :: rest
        | group => bytesOf? (group ++ [v]) 0 r

/-! ## Values -/

/-- The value of a scalar. -/
def scalarOf? (tag : Tag) (text : String) : Option Plain :=
  let cs := text.toList
  match tag with
  | .null => some .null
  | .bool => (Tag.boolWords.lookup (String.ofList (cs.map Char.toLower))).map .bool
  | .int => (intOf? cs).map .int
  | .float => (floatOf? cs).map .float
  | .timestamp => (Tag.moment? cs).bind stampOf?
  | .binary => if cs.all fun c => c.toNat < 128 then (bytesOf? [] 0 cs).map .bytes else none
  | .str => some (.text text)
  | _ => none

/-- A value that can be a key. -/
def isKey : Plain → Bool
  | .list _ => false
  | .set _ => false
  | .map _ => false
  | _ => true

/-- The text that a map stands for, if it has a key for that. -/
def valueText? (entries : List (Node × Node)) : Option String :=
  match entries.find? fun e => e.1.tag = .value with
  | some (_, .scalar _ text) => some text
  | _ => none

/-- A map of entries, of which the last one counts for equal keys. -/
def mapOf (entries : List (Plain × Plain)) : List (Plain × Plain) :=
  entries.foldl (fun es e => Plain.putEntry es e.1 e.2) []

mutual

/-- The value of a node. -/
def plainOf? : Node → Option Plain
  | .scalar tag text => scalarOf? tag text
  | .sequence tag items =>
    match tag with
    | .seq => (plainsOf? items).map .list
    | .omap => (pairsOf? items).map .list
    | .pairs => (pairsOf? items).map .list
    | _ => none
  | .mapping tag entries =>
    match tag with
    | .map => (entriesOf? entries).map fun (merged, own) => .map (mapOf (merged ++ own))
    | .set => (entriesOf? entries).map fun (merged, own) => .set ((mapOf (merged ++ own)).map (·.1))
    | tag => (valueText? entries).bind (scalarOf? tag)

def plainsOf? : List Node → Option (List Plain)
  | [] => some []
  | n :: ns => do
    let v ← plainOf? n
    return v :: (← plainsOf? ns)

/-- The values of maps of one entry each, as pairs. -/
def pairsOf? : List Node → Option (List Plain)
  | [] => some []
  | .mapping _ [(k, v)] :: ns => do
    let k ← plainOf? k
    let v ← plainOf? v
    return .tuple [k, v] :: (← pairsOf? ns)
  | _ => none

/-- The entries of a map: those that it takes over, and its own. -/
def entriesOf? : List (Node × Node) → Option (List (Plain × Plain) × List (Plain × Plain))
  | [] => some ([], [])
  | (.scalar .merge _, v) :: es => do
    let taken ← mergedOf? v
    let (merged, own) ← entriesOf? es
    return (taken ++ merged, own)
  | (.scalar .value text, v) :: es => do
    let v ← plainOf? v
    let (merged, own) ← entriesOf? es
    return (merged, (.text text, v) :: own)
  | (k, v) :: es => do
    let k ← plainOf? k
    guard (isKey k)
    let v ← plainOf? v
    let (merged, own) ← entriesOf? es
    return (merged, (k, v) :: own)

/-- The entries that a merged node gives: a map its own, and a list of maps those of its maps, the last one first. -/
def mergedOf? : Node → Option (List (Plain × Plain))
  | .mapping _ entries => (entriesOf? entries).map fun (merged, own) => merged ++ own
  | .sequence _ items => allMergedOf? items
  | _ => none

def allMergedOf? : List Node → Option (List (Plain × Plain))
  | [] => some []
  | .mapping _ entries :: ns => do
    let (merged, own) ← entriesOf? entries
    return (← allMergedOf? ns) ++ merged ++ own
  | _ => none

end

end Scratchpad.Yaml

namespace Scratchpad

/-- The data of a YAML text; a text without a document is null. -/
def Plain.ofYaml? (text : String) : Option Plain := do
  let tokens ← Yaml.Token.ofText? text.toList
  match ← Yaml.Node.ofTokens? tokens with
  | none => return .null
  | some n => Yaml.plainOf? n

end Scratchpad
