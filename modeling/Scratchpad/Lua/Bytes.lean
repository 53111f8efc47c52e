import Scratchpad.Text.Utf8

/-!
# Byte strings

The strings of the Lua language are sequences of bytes. Character classes are those of ASCII.
-/

namespace Scratchpad.Lua

/-- A string of the language. -/
abbrev Bytes := List UInt8

/-- The UTF-8 bytes of a text. -/
def bytes (s : String) : Bytes :=
  Text.Utf8.ofString s

/-- The byte of an ASCII character. -/
def byte (c : Char) : UInt8 :=
  c.toNat.toUInt8

namespace Byte

def isDigit (b : UInt8) : Bool :=
  byte '0' ≤ b && b ≤ byte '9'

def isUpper (b : UInt8) : Bool :=
  byte 'A' ≤ b && b ≤ byte 'Z'

def isLower (b : UInt8) : Bool :=
  byte 'a' ≤ b && b ≤ byte 'z'

def isAlpha (b : UInt8) : Bool :=
  isUpper b || isLower b

/-- A byte that can begin a name. -/
def isNameStart (b : UInt8) : Bool :=
  isAlpha b || b == byte '_'

/-- A byte that can continue a name. -/
def isNameRest (b : UInt8) : Bool :=
  isNameStart b || isDigit b

/-- Space, tab, line feed, vertical tab, form feed and carriage return. -/
def isSpace (b : UInt8) : Bool :=
  b == 32 || 9 ≤ b && b ≤ 13

/-- Line feed or carriage return. -/
def isNewline (b : UInt8) : Bool :=
  b == 10 || b == 13

/-- A byte that is shown as itself. -/
def isPrintable (b : UInt8) : Bool :=
  32 ≤ b && b < 127

def toUpper (b : UInt8) : UInt8 :=
  if isLower b then b - 32 else b

def toLower (b : UInt8) : UInt8 :=
  if isUpper b then b + 32 else b

/-- The value of a hexadecimal digit. -/
def hexValue? (b : UInt8) : Option Nat :=
  if isDigit b then some (b.toNat - 48)
  else if byte 'a' ≤ b && b ≤ byte 'f' then some (b.toNat - 87)
  else if byte 'A' ≤ b && b ≤ byte 'F' then some (b.toNat - 55)
  else none

def isHex (b : UInt8) : Bool :=
  (hexValue? b).isSome

end Byte

/-- The order of strings, byte by byte. -/
def Bytes.lt : Bytes → Bytes → Bool
  | _, [] => false
  | [], _ :: _ => true
  | a :: as, b :: bs => a < b || a == b && Bytes.lt as bs

end Scratchpad.Lua
