import Scratchpad.Yaml.Cursor

/-!
# Scalars

The texts of scalars: quoted (`quoted?`), plain (`plain`), and blocks of lines (`block?`). A line break inside a quoted
or plain scalar counts as a space, and further ones as themselves. Each reader yields the text and the cursor behind it.
-/

namespace Scratchpad.Yaml.Scalar

/-! ## Line breaks -/

/-- What a line break and the ones after it stand for in folded text. -/
def folded (first : Char) (more : List Char) : List Char :=
  if first ≠ '\n' then first :: more else if more.isEmpty then [' '] else more

/-- The line breaks at the cursor with the blanks before and after them; none if a document begins or ends there. -/
def breaks? : Nat → Cursor → Option (List Char × Cursor)
  | 0, _ => none
  | fuel + 1, c =>
    if c.atBoundary then none
    else
      let c := c.skipWhile isBlank
      match c.takeBreak? with
      | none => some ([], c)
      | some (b, c) => (breaks? fuel c).map fun (bs, c) => (b :: bs, c)

/-! ## Quoted scalars -/

/-- The character that a letter behind a backslash stands for. -/
def escape? : Char → Option Char
  | '0' => some '\x00'
  | 'a' => some '\x07'
  | 'b' => some '\x08'
  | 't' => some '\t'
  | '\t' => some '\t'
  | 'n' => some '\n'
  | 'v' => some '\x0b'
  | 'f' => some '\x0c'
  | 'r' => some '\r'
  | 'e' => some '\x1b'
  | ' ' => some ' '
  | '"' => some '"'
  | '\\' => some '\\'
  | '/' => some '/'
  | 'N' => some '\x85'
  | '_' => some '\xa0'
  | 'L' => some '\u2028'
  | 'P' => some '\u2029'
  | _ => none

/-- How many hexadecimal digits follow a letter behind a backslash. -/
def codeLength? : Char → Option Nat
  | 'x' => some 2
  | 'u' => some 4
  | 'U' => some 8
  | _ => none

/-- The value of a hexadecimal digit. -/
def hexValue? (c : Char) : Option Nat :=
  if c.isDigit then some (c.toNat - 48)
  else if 'a' ≤ c && c ≤ 'f' then some (c.toNat - 87)
  else if 'A' ≤ c && c ≤ 'F' then some (c.toNat - 55)
  else none

/-- The number that hexadecimal digits stand for. -/
def hexNumber? (cs : List Char) : Option Nat :=
  cs.foldlM (fun n c => (hexValue? c).map (n * 16 + ·)) 0

/-- The character of a code. -/
def charOf? (n : Nat) : Option Char :=
  if n.isValidChar then some (Char.ofNat n) else none

/-- The characters that an escape at the cursor, behind its backslash, stands for. -/
def escaped? (c : Cursor) : Option (List Char × Cursor) := do
  let ch ← c.peek?
  if let some r := escape? ch then return ([r], c.advance)
  if let some n := codeLength? ch then
    let digits := (c.rest.drop 1).take n
    guard (digits.length = n)
    let r ← charOf? (← hexNumber? digits)
    return ([r], c.advanceBy (n + 1))
  let (_, c) ← c.takeBreak?
  breaks? (c.rest.length + 1) c

/-- A character that a quoted scalar may take as it is. -/
def isPlainInQuotes (c : Char) : Bool :=
  !(c == '\x27' || c == '"' || c == '\\' || isGap c)

/-- The rest of a quoted scalar, up to its closing quote. -/
def quotedRest? (double : Bool) : Nat → Cursor → Option (List Char × Cursor)
  | 0, _ => none
  | fuel + 1, c => do
    let prepend (cs : List Char) (r : List Char × Cursor) : List Char × Cursor := (cs ++ r.1, r.2)
    let ch ← c.peek?
    if ch == '\x27' && !double then
      if c.peekAt? 1 == some '\x27' then prepend [ch] <$> quotedRest? double fuel (c.advanceBy 2)
      else return ([], c.advance)
    else if ch == '"' && double then return ([], c.advance)
    else if ch == '\\' && double then
      let (cs, c) ← escaped? c.advance
      prepend cs <$> quotedRest? double fuel c
    else if isGap ch then
      let (blanks, c) := c.takeWhile isBlank
      let _ ← c.peek?
      match c.takeBreak? with
      | none => prepend blanks <$> quotedRest? double fuel c
      | some (b, c) =>
        let (bs, c) ← breaks? (c.rest.length + 1) c
        prepend (folded b bs) <$> quotedRest? double fuel c
    else if isPlainInQuotes ch then
      let (cs, c) := c.takeWhile isPlainInQuotes
      prepend cs <$> quotedRest? double fuel c
    else prepend [ch] <$> quotedRest? double fuel c.advance

/-- The quoted scalar at the cursor. -/
def quoted? (c : Cursor) : Option (List Char × Cursor) :=
  quotedRest? (c.peek? == some '"') (c.rest.length + 1) c.advance

/-! ## Plain scalars -/

/-- A character that ends plain scalars inside brackets. -/
def isFlowEnd (c : Char) : Bool :=
  c == ',' || c == '?' || c == '[' || c == ']' || c == '\x7b' || c == '\x7d'

/-- A colon before these characters ends a plain scalar. -/
def endsKey (inFlow : Bool) : List Char → Bool
  | [] => true
  | c :: _ => isGap c || (inFlow && c != '?' && isFlowEnd c)

/-- The characters of a plain scalar up to the next gap. -/
def word (inFlow : Bool) : List Char → List Char
  | [] => []
  | c :: r =>
    if isGap c || (c == ':' && endsKey inFlow r) || (inFlow && isFlowEnd c) then [] else c :: word inFlow r

/-- The line breaks at the cursor and the spaces around them, up to the beginning or end of a document; the truth value
tells whether that was reached. -/
def plainBreaks : Nat → Cursor → List Char × Bool × Cursor
  | 0, c => ([], false, c)
  | fuel + 1, c =>
    if c.atBoundary then ([], true, c)
    else
      let c := c.skipWhile (· == ' ')
      match c.takeBreak? with
      | none => ([], false, c)
      | some (b, c) =>
        let (bs, stopped, c) := plainBreaks fuel c
        (b :: bs, stopped, c)

/-- What stands between two words of a plain scalar, as it counts in the text; the truth value tells whether there is a
line break in it. -/
def between (c : Cursor) : List Char × Bool × Cursor :=
  let (spaces, c) := c.takeWhile (· == ' ')
  match c.takeBreak? with
  | none => (spaces, false, c)
  | some (b, c) =>
    let (bs, stopped, c) := plainBreaks (c.rest.length + 1) c
    (if stopped then [] else folded b bs, true, c)

/-- The rest of a plain scalar behind `space`, with lines indented by `indent` at least. The truth value tells whether
the scalar ends at the beginning of a line. -/
def plainRest (inFlow : Bool) (indent : Int) (space : List Char) (fresh : Bool) :
    Nat → Cursor → List Char × Bool × Cursor
  | 0, c => ([], fresh, c)
  | fuel + 1, c =>
    let cs := if c.peek? == some '#' then [] else word inFlow c.rest
    if cs.isEmpty then ([], fresh, c)
    else
      let (gap, fresh, c) := between (c.advanceBy cs.length)
      let (more, fresh, c) :=
        if gap.isEmpty || (!inFlow && c.column < indent) then ([], fresh, c)
        else plainRest inFlow indent gap fresh fuel c
      (space ++ cs ++ more, fresh, c)

/-- The plain scalar at the cursor. -/
def plain (inFlow : Bool) (indent : Int) (c : Cursor) : List Char × Bool × Cursor :=
  plainRest inFlow indent [] false (c.rest.length + 1) c

/-! ## Blocks -/

/-- What becomes of the line breaks at the end of a block. -/
inductive Chomp where
  | strip | clip | keep
  deriving DecidableEq, Repr

/-- The digit at the cursor, which must not be zero. -/
def indentDigit? (c : Cursor) : Option (Option Nat × Cursor) :=
  match c.peek? with
  | some ch =>
    if ch == '0' then none
    else if ch.isDigit then some (some (ch.toNat - 48), c.advance)
    else some (none, c)
  | none => some (none, c)

/-- The sign at the cursor. -/
def chomp? (c : Cursor) : Option Chomp × Cursor :=
  match c.peek? with
  | some '+' => (some .keep, c.advance)
  | some '-' => (some .strip, c.advance)
  | _ => (none, c)

/-- The sign and the digit behind the mark of a block, in either order. -/
def header? (c : Cursor) : Option (Chomp × Option Nat × Cursor) := do
  match chomp? c with
  | (some chomp, c) =>
    let (digit, c) ← indentDigit? c
    return (chomp, digit, c)
  | (none, c) =>
    let (digit, c) ← indentDigit? c
    if digit.isSome then
      let (chomp, c) := chomp? c
      return (chomp.getD .clip, digit, c)
    else return (.clip, none, c)

/-- The empty lines at the cursor, with up to `indent` spaces on each and on the next line. -/
def emptyLines (indent : Int) : Nat → Cursor → List Char × Cursor
  | 0, c => ([], c)
  | fuel + 1, c =>
    let c := c.skipSpacesTo indent
    match c.takeBreak? with
    | none => ([], c)
    | some (b, c) =>
      let (bs, c) := emptyLines indent fuel c
      (b :: bs, c)

/-- The empty lines at the cursor with all spaces, and the greatest column that the spaces reach. -/
def leadingLines : Nat → Cursor → List Char × Nat × Cursor
  | 0, c => ([], 0, c)
  | fuel + 1, c =>
    let (spaces, c) := c.takeWhile (· == ' ')
    let reached := if spaces.isEmpty then 0 else c.column
    match c.takeBreak? with
    | none => ([], reached, c)
    | some (b, c) =>
      let (bs, more, c) := leadingLines fuel c
      (b :: bs, max reached more, c)

/-- The lines of a block behind the line breaks `bs`. -/
def blockLines (fold : Bool) (chomp : Chomp) (indent : Int) (last bs : List Char) : Nat → Cursor → List Char × Cursor
  | 0, c => ([], c)
  | fuel + 1, c =>
    let tail := (if chomp = .strip then [] else last) ++ (if chomp = .keep then bs else [])
    if c.column ≠ indent || c.rest.isEmpty then (tail, c)
    else
      let joins := !(c.peek?.any isBlank)
      let (line, c) := c.takeWhile fun ch => !isBreak ch
      let (last, c) := match c.takeBreak? with
        | some (b, c) => ([b], c)
        | none => ([], c)
      let (next, c) := emptyLines indent (c.rest.length + 1) c
      let goesOn := c.column = indent && !c.rest.isEmpty
      let gap :=
        if !goesOn then []
        else if fold && last == ['\n'] && joins && !(c.peek?.any isBlank) then (if next.isEmpty then [' '] else [])
        else last
      let (more, c) := blockLines fold chomp indent last next fuel c
      (bs ++ line ++ gap ++ more, c)

/-- The block at the cursor, inside an indentation of `outer`; it is folded if its mark is `>`. -/
def block? (outer : Int) (c : Cursor) : Option (List Char × Cursor) := do
  let fold := c.peek? == some '>'
  let (chomp, digit, c) ← header? c.advance
  guard (c.endsWith fun ch => ch == ' ' || isBreak ch)
  let c ← c.skipLine?
  let least := max (outer + 1) 1
  let fuel := c.rest.length + 1
  let (bs, indent, c) := match digit with
    | none =>
      let (bs, reached, c) := leadingLines fuel c
      (bs, max least reached, c)
    | some d =>
      let indent := least + d - 1
      let (bs, c) := emptyLines indent fuel c
      (bs, indent, c)
  return blockLines fold chomp indent [] bs fuel c

end Scratchpad.Yaml.Scalar
