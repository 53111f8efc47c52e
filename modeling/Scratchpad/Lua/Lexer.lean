import Scratchpad.Lua.Token

/-!
# Lexical analysis

`lex` turns the bytes of a program into tokens, or into the tokens before the first lexical error and that error. Each
function reads from the front of the remaining bytes and yields what is left of them, with the number of the line
reached.
-/

namespace Scratchpad.Lua

/-- An error in a program's text: the line on which it was noticed and the message without position. -/
structure SyntaxError where
  line : Nat
  message : Bytes
  deriving Repr

namespace Lexer

/-- A lexical error that mentions the text read so far. -/
def errorNear (line : Nat) (message : String) (raw : Bytes) : SyntaxError :=
  ⟨line, bytes (message ++ " near ") ++ quoted raw⟩

/-- A lexical error at the end of the program. -/
def errorAtEnd (line : Nat) (message : String) : SyntaxError :=
  ⟨line, bytes (message ++ " near <eof>")⟩

/-! ## Line ends and brackets -/

/-- What follows a line end; the two bytes of a pair are one line end. -/
def afterNewline : Bytes → Bytes
  | 10 :: 13 :: r => r
  | 13 :: 10 :: r => r
  | _ :: r => r
  | [] => []

theorem length_afterNewline_le (bs : Bytes) : (afterNewline bs).length ≤ bs.length - 1 := by
  unfold afterNewline
  split <;> simp

/-- The level of a long bracket that begins after its first bracket `open`, and what follows it. -/
def longBracket? (bracket : UInt8) (bs : Bytes) : Option (Nat × Bytes) :=
  let level := (bs.takeWhile (· == byte '=')).length
  match bs.drop level with
  | b :: r => if b == bracket then some (level, r) else none
  | [] => none

/-- What follows the closing long bracket of a level, if the bytes begin with one. -/
def afterClose? (level : Nat) : Bytes → Option Bytes
  | 93 :: r =>
    match longBracket? 93 r with
    | some (l, r) => if l = level then some r else none
    | none => none
  | _ => none

/-- The content of a long bracket, reversed onto `acc`, with every line end as a line feed; none if it is not closed. -/
def longContent (level : Nat) (line : Nat) (acc : Bytes) (bs : Bytes) : Nat × Option (Bytes × Bytes) :=
  match bs with
  | [] => (line, none)
  | b :: r =>
    match afterClose? level (b :: r) with
    | some rest => (line, some (acc.reverse, rest))
    | none =>
      if Byte.isNewline b then longContent level (line + 1) (10 :: acc) (afterNewline (b :: r))
      else longContent level line (b :: acc) r
  termination_by bs.length
  decreasing_by
    · have := length_afterNewline_le (b :: r)
      simp at this
      simp
      omega
    · simp

/-- The content of a long bracket without a line end at its front. -/
def longText (level line : Nat) (bs : Bytes) : Nat × Option (Bytes × Bytes) :=
  match bs with
  | b :: _ =>
    if Byte.isNewline b then longContent level (line + 1) [] (afterNewline bs) else longContent level line [] bs
  | [] => (line, none)

/-! ## Quoted strings -/

/-- The bytes of a code point, in the form of UTF-8 extended to 31 bits. -/
def codePoint (n : Nat) : Bytes :=
  if n < 0x80 then [n.toUInt8]
  else
    let tail (k : Nat) : Bytes := (List.range k).reverse.map fun i => (0x80 + n >>> (6 * i) % 64).toUInt8
    if n < 0x800 then (0xC0 + n / 64).toUInt8 :: tail 1
    else if n < 0x10000 then (0xE0 + n >>> 12).toUInt8 :: tail 2
    else if n < 0x200000 then (0xF0 + n >>> 18).toUInt8 :: tail 3
    else if n < 0x4000000 then (0xF8 + n >>> 24).toUInt8 :: tail 4
    else (0xFC + n >>> 30).toUInt8 :: tail 5

/-- A part of a quoted string. -/
inductive Piece where
  /-- The bytes that an escape stands for, the line reached and the rest. -/
  | ok (value : Bytes) (line : Nat) (rest : Bytes)
  | error (e : SyntaxError)

/-- An error in an escape: `read` is what was read of the escape, and one more byte is shown. -/
def badEscape (line : Nat) (message : String) (before read rest : Bytes) : Piece :=
  .error (errorNear line message (before ++ read ++ rest.take 1))

/-- The escape `\x` with two hexadecimal digits. -/
def hexEscape (line : Nat) (before : Bytes) (r : Bytes) : Piece :=
  let read := [byte '\\', byte 'x']
  match r with
  | [] => badEscape line "hexadecimal digit expected" before read []
  | a :: r₁ =>
    match Byte.hexValue? a, r₁ with
    | none, _ => badEscape line "hexadecimal digit expected" before read r
    | some _, [] => badEscape line "hexadecimal digit expected" before (read ++ [a]) []
    | some x, b :: r₂ =>
      match Byte.hexValue? b with
      | none => badEscape line "hexadecimal digit expected" before (read ++ [a]) r₁
      | some y => .ok [(x * 16 + y).toUInt8] line r₂

/-- The digits of the escape `\u` after the first one. -/
def unicodeDigits (line : Nat) (before : Bytes) (read : Bytes) (n : Nat) : Bytes → Piece
  | [] => badEscape line "missing '\x7d'" before read []
  | b :: r =>
    match Byte.hexValue? b with
    | some d =>
      if n ≤ 0x7FFFFFF then unicodeDigits line before (read ++ [b]) (n * 16 + d) r
      else badEscape line "UTF-8 value too large" before read (b :: r)
    | none => if b == byte '\x7d' then .ok (codePoint n) line r else badEscape line "missing '\x7d'" before read (b :: r)

/-- The escape `\u` with hexadecimal digits between braces. -/
def unicodeEscape (line : Nat) (before : Bytes) (r : Bytes) : Piece :=
  let read := [byte '\\', byte 'u']
  match r with
  | [] => badEscape line "missing '\x7b'" before read []
  | o :: r₁ =>
    if o == byte '\x7b' then
      match r₁ with
      | [] => badEscape line "hexadecimal digit expected" before (read ++ [o]) []
      | a :: r₂ =>
        match Byte.hexValue? a with
        | none => badEscape line "hexadecimal digit expected" before (read ++ [o]) r₁
        | some x => unicodeDigits line before (read ++ [o, a]) x r₂
    else badEscape line "missing '\x7b'" before read r

/-- The escape of a byte by up to three decimal digits. -/
def decimalEscape (line : Nat) (before : Bytes) (r : Bytes) : Piece :=
  let ds := (r.take 3).takeWhile Byte.isDigit
  let n := Numeral.decimalValue ds
  let rest := r.drop ds.length
  if n ≤ 255 then .ok [n.toUInt8] line rest
  else badEscape line "decimal escape too large" before (byte '\\' :: ds) rest

/-- Skips white space and counts the lines that it ends. -/
def skipSpace (line : Nat) (bs : Bytes) : Nat × Bytes :=
  match bs with
  | [] => (line, [])
  | b :: r =>
    if Byte.isNewline b then skipSpace (line + 1) (afterNewline (b :: r))
    else if Byte.isSpace b then skipSpace line r
    else (line, b :: r)
  termination_by bs.length
  decreasing_by
    · have := length_afterNewline_le (b :: r)
      simp at this
      simp
      omega
    · simp

/-- The byte that an escape letter stands for. -/
def letterEscape? (b : UInt8) : Option UInt8 :=
  if b == byte 'a' then some 7
  else if b == byte 'b' then some 8
  else if b == byte 'f' then some 12
  else if b == byte 'n' then some 10
  else if b == byte 'r' then some 13
  else if b == byte 't' then some 9
  else if b == byte 'v' then some 11
  else if b == byte '\\' || b == byte '\x22' || b == byte '\x27' then some b
  else none

/-- An escape after its backslash; `before` is the string as read so far, with its opening quote. -/
def readEscape (line : Nat) (before : Bytes) (bs : Bytes) : Piece :=
  match bs with
  | [] => .ok [] line []
  | b :: r =>
    match letterEscape? b with
    | some v => .ok [v] line r
    | none =>
      if b == byte 'x' then hexEscape line before r
      else if b == byte 'u' then unicodeEscape line before r
      else if Byte.isNewline b then .ok [10] (line + 1) (afterNewline bs)
      else if b == byte 'z' then
        let (line, rest) := skipSpace line r
        .ok [] line rest
      else if Byte.isDigit b then decimalEscape line before bs
      else badEscape line "invalid escape sequence" before [byte '\\'] bs

/-- A quoted string, or an error; the result holds the value, the line reached and the rest. -/
inductive Quoted where
  | ok (value : Bytes) (line : Nat) (rest : Bytes)
  | error (e : SyntaxError)

/-- The string up to the quote `q`; `acc` is what was read of it, reversed. At most `fuel` parts are read, and a string
has no more parts than bytes. -/
def readQuoted (q : UInt8) : Nat → Nat → Bytes → Bytes → Quoted
  | 0, line, _, _ => .error (errorAtEnd line "unfinished string")
  | _ + 1, line, _, [] => .error (errorAtEnd line "unfinished string")
  | fuel + 1, line, acc, b :: r =>
    if b == q then .ok acc.reverse line r
    else if Byte.isNewline b then .error (errorNear line "unfinished string" (q :: acc.reverse))
    else if b == byte '\\' then
      match readEscape line (q :: acc.reverse) r with
      | .ok v line rest => readQuoted q fuel line (v.reverse ++ acc) rest
      | .error e => .error e
    else readQuoted q fuel line (b :: acc) r

/-! ## Numerals -/

/-- The extent of a numeral: everything that can belong to it, valid or not. A sign belongs to it right after an
exponent mark. -/
def numeralRun (isMark : UInt8 → Bool) : Bool → Bytes → Bytes × Bytes
  | _, [] => ([], [])
  | afterMark, b :: r =>
    if isMark b then
      let (run, rest) := numeralRun isMark true r
      (b :: run, rest)
    else if afterMark && (b == byte '+' || b == byte '-') || Byte.isHex b || b == byte '.' then
      let (run, rest) := numeralRun isMark false r
      (b :: run, rest)
    else ([], b :: r)

/-- The text of the numeral at the front of some bytes and the rest. A name right behind it spoils it. -/
def splitNumeral (bs : Bytes) : Bytes × Bytes :=
  let isE (b : UInt8) := b == byte 'e' || b == byte 'E'
  let isP (b : UInt8) := b == byte 'p' || b == byte 'P'
  let (run, rest) := match Numeral.afterHexMark? bs with
    | some r =>
      let (run, rest) := numeralRun isP false r
      (bs.take 2 ++ run, rest)
    | none => numeralRun isE false bs
  match rest with
  | b :: r => if Byte.isNameStart b then (run ++ [b], r) else (run, rest)
  | [] => (run, rest)

/-! ## Tokens -/

/-- The next token, or the end of the program, or an error. -/
inductive Next where
  | token (l : Lexeme) (rest : Bytes)
  /-- Nothing but white space or a comment was there. -/
  | skip (line : Nat) (rest : Bytes)
  | error (e : SyntaxError)

/-- A comment after its two dashes. -/
def readComment (line : Nat) (bs : Bytes) : Next :=
  let short := Next.skip line (bs.dropWhile fun b => !Byte.isNewline b)
  match bs with
  | 91 :: r =>
    match longBracket? 91 r with
    | some (level, r) =>
      match longText level line r with
      | (line, some (_, rest)) => .skip line rest
      | (last, none) => .error (errorAtEnd last ("unfinished long comment (starting at line " ++ toString line ++ ")"))
    | none => short
  | _ => short

/-- A token that begins with a bracket. -/
def readBracket (line : Nat) (r : Bytes) : Next :=
  match longBracket? 91 r with
  | some (level, r) =>
    let fence := 91 :: List.replicate level (byte '=')
    match longText level line r with
    | (last, some (value, rest)) =>
      let close := 93 :: List.replicate level (byte '=') ++ [93]
      .token ⟨.str value, fence ++ 91 :: value ++ close, last⟩ rest
    | (last, none) => .error (errorAtEnd last ("unfinished long string (starting at line " ++ toString line ++ ")"))
  | none =>
    let run := r.takeWhile (· == byte '=')
    if run.isEmpty then .token ⟨.sym .lbracket, [], line⟩ r
    else .error (errorNear line "invalid long string delimiter" (91 :: run))

/-- The symbol at the front of some bytes and its length. -/
def symbol? : Bytes → Option (Sym × Nat)
  | b :: r =>
    let next (c : Char) := r.head? == some (byte c)
    match Char.ofNat b.toNat with
    | '+' => some (.plus, 1)
    | '-' => some (.minus, 1)
    | '*' => some (.star, 1)
    | '/' => if next '/' then some (.idiv, 2) else some (.slash, 1)
    | '%' => some (.percent, 1)
    | '^' => some (.caret, 1)
    | '#' => some (.hash, 1)
    | '&' => some (.amp, 1)
    | '~' => if next '=' then some (.ne, 2) else some (.tilde, 1)
    | '|' => some (.pipe, 1)
    | '<' => if next '=' then some (.le, 2) else if next '<' then some (.shl, 2) else some (.lt, 1)
    | '>' => if next '=' then some (.ge, 2) else if next '>' then some (.shr, 2) else some (.gt, 1)
    | '=' => if next '=' then some (.eq, 2) else some (.assign, 1)
    | '(' => some (.lparen, 1)
    | ')' => some (.rparen, 1)
    | '\x7b' => some (.lbrace, 1)
    | '\x7d' => some (.rbrace, 1)
    | ']' => some (.rbracket, 1)
    | ';' => some (.semi, 1)
    | ':' => if next ':' then some (.dcolon, 2) else some (.colon, 1)
    | ',' => some (.comma, 1)
    | '.' =>
      if next '.' then (if (r.drop 1).head? == some (byte '.') then some (.dots, 3) else some (.concat, 2))
      else some (.dot, 1)
    | _ => none
  | [] => none

/-- A name or a reserved word. -/
def wordToken (raw : Bytes) : Token :=
  match Keyword.table.lookup raw with
  | some k => .word k
  | none => .name raw

/-- Looks at the front of the remaining bytes. -/
def next (line : Nat) : Bytes → Next
  | [] => .token ⟨.eof, [], line⟩ []
  | b :: r =>
    if Byte.isNewline b then .skip (line + 1) (afterNewline (b :: r))
    else if Byte.isSpace b then .skip line r
    else if Byte.isNameStart b then
      let raw := (b :: r).takeWhile Byte.isNameRest
      .token ⟨wordToken raw, raw, line⟩ ((b :: r).dropWhile Byte.isNameRest)
    else if Byte.isDigit b || b == byte '.' && (r.head?.any Byte.isDigit) then
      let (raw, rest) := splitNumeral (b :: r)
      match readNumber? raw with
      | some n => .token ⟨.number n, raw, line⟩ rest
      | none => .error (errorNear line "malformed number" raw)
    else if b == byte '\x22' || b == byte '\x27' then
      match readQuoted b (r.length + 1) line [] r with
      | .ok v line rest => .token ⟨.str v, b :: v ++ [b], line⟩ rest
      | .error e => .error e
    else if b == byte '-' && r.head? == some (byte '-') then readComment line (r.drop 1)
    else if b == byte '[' then readBracket line r
    else match symbol? (b :: r) with
      | some (s, n) => .token ⟨.sym s, [], line⟩ ((b :: r).drop n)
      | none => .token ⟨.stray b, [], line⟩ r

/-- The tokens of the remaining bytes. At most `fuel` looks are needed, one a byte and one at the end. -/
def lexFrom : Nat → Nat → Bytes → List Lexeme × Option SyntaxError
  | 0, line, _ => ([⟨.eof, [], line⟩], none)
  | fuel + 1, line, bs =>
    match next line bs with
    | .error e => ([], some e)
    | .skip line rest => lexFrom fuel line rest
    | .token l rest =>
      if l.token = .eof then ([l], none)
      else
        let (ls, e) := lexFrom fuel l.line rest
        (l :: ls, e)

end Lexer

/-- The tokens of a program, the last one `eof`; or the tokens before the first lexical error, and that error. -/
def lex (program : Bytes) : List Lexeme × Option SyntaxError :=
  Lexer.lexFrom (program.length + 1) 1 program

end Scratchpad.Lua
