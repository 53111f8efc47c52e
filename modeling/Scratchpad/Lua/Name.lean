/-!
# Names of the Lua language

A name is an ASCII letter or underscore followed by letters, underscores and digits, and not a reserved word.
-/

namespace Scratchpad.Lua

/-- The reserved words. -/
def reservedWords : List String :=
  ["and", "break", "do", "else", "elseif", "end", "false", "for", "function", "goto", "if", "in", "local", "nil",
   "not", "or", "repeat", "return", "then", "true", "until", "while"]

def isNameStart (c : Char) : Bool :=
  c.isAlpha || c == '_'

def isNameRest (c : Char) : Bool :=
  c.isAlphanum || c == '_'

/-- The form of a name, reserved words included. -/
def isWord : List Char → Bool
  | [] => false
  | c :: r => isNameStart c && r.all isNameRest

/-- A name that a program may give to a variable. -/
def isIdentifier (s : String) : Bool :=
  isWord s.toList && !reservedWords.contains s

end Scratchpad.Lua
