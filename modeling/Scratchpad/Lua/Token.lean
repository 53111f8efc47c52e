import Scratchpad.Lua.Numeral

/-!
# Tokens

The words, symbols, names, strings and numerals of a program, and the words in which messages mention them.
-/

namespace Scratchpad.Lua

/-- The reserved words. -/
inductive Keyword where
  | kAnd | kBreak | kDo | kElse | kElseif | kEnd | kFalse | kFor | kFunction | kGoto | kIf | kIn | kLocal | kNil
  | kNot | kOr | kRepeat | kReturn | kThen | kTrue | kUntil | kWhile
  deriving DecidableEq, Repr

namespace Keyword

/-- The spelling of a reserved word. -/
def text : Keyword → String
  | kAnd => "and" | kBreak => "break" | kDo => "do" | kElse => "else" | kElseif => "elseif" | kEnd => "end"
  | kFalse => "false" | kFor => "for" | kFunction => "function" | kGoto => "goto" | kIf => "if" | kIn => "in"
  | kLocal => "local" | kNil => "nil" | kNot => "not" | kOr => "or" | kRepeat => "repeat" | kReturn => "return"
  | kThen => "then" | kTrue => "true" | kUntil => "until" | kWhile => "while"

def all : List Keyword :=
  [kAnd, kBreak, kDo, kElse, kElseif, kEnd, kFalse, kFor, kFunction, kGoto, kIf, kIn, kLocal, kNil, kNot, kOr,
   kRepeat, kReturn, kThen, kTrue, kUntil, kWhile]

/-- The spellings as bytes. -/
def table : List (Bytes × Keyword) :=
  all.map fun k => (bytes k.text, k)

end Keyword

/-- The symbols. -/
inductive Sym where
  | plus | minus | star | slash | percent | caret | hash | amp | tilde | pipe | shl | shr | idiv | eq | ne | le | ge
  | lt | gt | assign | lparen | rparen | lbrace | rbrace | lbracket | rbracket | dcolon | semi | colon | comma | dot
  | concat | dots
  deriving DecidableEq, Repr

/-- The spelling of a symbol. -/
def Sym.text : Sym → String
  | plus => "+" | minus => "-" | star => "*" | slash => "/" | percent => "%" | caret => "^" | hash => "#"
  | amp => "&" | tilde => "~" | pipe => "|" | shl => "<<" | shr => ">>" | idiv => "//" | eq => "==" | ne => "~="
  | le => "<=" | ge => ">=" | lt => "<" | gt => ">" | assign => "=" | lparen => "(" | rparen => ")"
  | lbrace => "\x7b" | rbrace => "\x7d" | lbracket => "[" | rbracket => "]" | dcolon => "::" | semi => ";"
  | colon => ":" | comma => "," | dot => "." | concat => ".." | dots => "..."

/-- A token. -/
inductive Token where
  /-- The end of the program. -/
  | eof
  | word (k : Keyword)
  | sym (s : Sym)
  | name (s : Bytes)
  | str (s : Bytes)
  | number (n : Number)
  /-- A byte that begins no token. -/
  | stray (b : UInt8)
  deriving DecidableEq, Repr

/-- A token in its place. -/
structure Lexeme where
  token : Token
  /-- The text that was read for a name, string or numeral. -/
  raw : Bytes
  /-- The line on which the token ends. -/
  line : Nat
  deriving DecidableEq, Repr

/-- A text between single quotes, as far as its first zero byte. -/
def quoted (bs : Bytes) : Bytes :=
  byte '\x27' :: bs.takeWhile (· != 0) ++ [byte '\x27']

/-- A text given as a string between single quotes. -/
def quotedString (s : String) : Bytes :=
  quoted (bytes s)

/-- How a message mentions a byte. -/
def strayText (b : UInt8) : Bytes :=
  if Byte.isPrintable b then quoted [b] else bytes ("'<\\" ++ toString b.toNat ++ ">'")

/-- How a message mentions a token. -/
def Lexeme.mention (l : Lexeme) : Bytes :=
  match l.token with
  | .eof => bytes "<eof>"
  | .word k => quotedString k.text
  | .sym s => quotedString s.text
  | .name _ => quoted l.raw
  | .str _ => quoted l.raw
  | .number _ => quoted l.raw
  | .stray b => strayText b

end Scratchpad.Lua
