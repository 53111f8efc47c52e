import Scratchpad.Number.Text
import Scratchpad.Text.Utf8

/-!
# Quoted strings of the Lua language

A string between double quotes, as a literal of the language. Controls are escaped by a letter or in decimal; text is
otherwise written as it is. Bytes that are not well-formed UTF-8 are written byte by byte, with every byte outside
printable ASCII in decimal.
-/

namespace Scratchpad.Inspect

/-- The letter that escapes a character. -/
def escapeLetter? (c : Char) : Option Char :=
  if c = '\\' then some '\\'
  else if c = '\x22' then some '\x22'
  else if c = '\n' then some 'n'
  else if c = '\r' then some 'r'
  else if c = '\t' then some 't'
  else if c = '\x07' then some 'a'
  else if c = '\x08' then some 'b'
  else if c = '\x0C' then some 'f'
  else if c = '\x0B' then some 'v'
  else if c = '\x00' then some '0'
  else none

/-- One character of a quoted text. -/
def quoteChar (c : Char) : List Char :=
  match escapeLetter? c with
  | some l => ['\\', l]
  | none => if c.toNat < 32 ∨ c.toNat = 127 then '\\' :: natDigits c.toNat else [c]

/-- A text between double quotes. -/
def quoteText (cs : List Char) : List Char :=
  '\x22' :: cs.flatMap quoteChar ++ ['\x22']

/-- One byte of quoted bytes. -/
def quoteByte (b : UInt8) : List Char :=
  let c := Char.ofNat b.toNat
  match escapeLetter? c with
  | some l => ['\\', l]
  | none => if b < 32 ∨ 127 ≤ b then '\\' :: natDigits b.toNat else [c]

/-- Bytes between double quotes: as text if they are well-formed, and byte by byte otherwise. -/
def quoteBytes (bs : List UInt8) : List Char :=
  match Text.Utf8.decode bs with
  | .ok cs => quoteText cs
  | .error _ => '\x22' :: bs.flatMap quoteByte ++ ['\x22']

end Scratchpad.Inspect
