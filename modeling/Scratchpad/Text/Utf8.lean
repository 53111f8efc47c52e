import Scratchpad.Text.Literal

/-!
# UTF-8

Text as bytes and back. `encode` writes a text; `decode` reads well-formed bytes and otherwise says where and why it
stopped; `decodeLossy` reads any bytes and puts one U+FFFD in the place of each maximal ill-formed part.

Both readers are built on `scan`, which looks at the front of the bytes: either it reads one character, or it says how
many bytes belong to the ill-formed part there.
-/

namespace Scratchpad.Text.Utf8

/-- Why bytes are not well-formed. -/
inductive Fault where
  /-- The byte cannot begin a character. -/
  | badStart
  /-- A byte that has to continue a character does not. -/
  | badContinuation
  /-- The bytes end inside a character. -/
  | truncated
  deriving DecidableEq, Repr

/-- The wording of a fault. -/
def Fault.message : Fault → String
  | .badStart => "invalid start byte"
  | .badContinuation => "invalid continuation byte"
  | .truncated => "unexpected end of data"

/-- The bytes of one character. -/
def encodeChar (c : Char) : List UInt8 :=
  let n := c.toNat
  if n < 0x80 then [n.toUInt8]
  else if n < 0x800 then [(0xC0 + n / 0x40).toUInt8, (0x80 + n % 0x40).toUInt8]
  else if n < 0x10000 then
    [(0xE0 + n / 0x1000).toUInt8, (0x80 + n / 0x40 % 0x40).toUInt8, (0x80 + n % 0x40).toUInt8]
  else
    [(0xF0 + n / 0x40000).toUInt8, (0x80 + n / 0x1000 % 0x40).toUInt8, (0x80 + n / 0x40 % 0x40).toUInt8,
     (0x80 + n % 0x40).toUInt8]

/-- The bytes of a text. -/
def encode (cs : List Char) : List UInt8 :=
  cs.flatMap encodeChar

/-- A byte that continues a character. -/
def isTail (b : UInt8) : Bool :=
  0x80 ≤ b && b ≤ 0xBF

/-- What a first byte promises: how many bytes follow it, its own bits, and the range of the byte after it.
The range leaves out overlong forms, surrogates and everything above U+10FFFF. -/
structure Lead where
  follow : Nat
  bits : Nat
  low : UInt8
  high : UInt8

/-- The promise of a first byte, if it can begin a character. -/
def lead? (b : UInt8) : Option Lead :=
  let n := b.toNat
  if n < 0x80 then some ⟨0, n, 0x80, 0xBF⟩
  else if 0xC2 ≤ n ∧ n ≤ 0xDF then some ⟨1, n - 0xC0, 0x80, 0xBF⟩
  else if n = 0xE0 then some ⟨2, n - 0xE0, 0xA0, 0xBF⟩
  else if n = 0xED then some ⟨2, n - 0xE0, 0x80, 0x9F⟩
  else if 0xE1 ≤ n ∧ n ≤ 0xEF then some ⟨2, n - 0xE0, 0x80, 0xBF⟩
  else if n = 0xF0 then some ⟨3, n - 0xF0, 0x90, 0xBF⟩
  else if 0xF1 ≤ n ∧ n ≤ 0xF3 then some ⟨3, n - 0xF0, 0x80, 0xBF⟩
  else if n = 0xF4 then some ⟨3, n - 0xF0, 0x80, 0x8F⟩
  else none

/-- What stands at the front of some bytes. -/
inductive Front where
  /-- A character of `length` bytes. -/
  | char (c : Char) (length : Nat)
  /-- An ill-formed part of `length` bytes. -/
  | bad (fault : Fault) (length : Nat)

/-- Reads `k` more continuation bytes; `got` bytes were read and give the bits `bits`. -/
def scanTail : Nat → Nat → Nat → List UInt8 → Front
  | 0, got, bits, _ => .char (Char.ofNat bits) got
  | _ + 1, got, _, [] => .bad .truncated got
  | k + 1, got, bits, b :: bs =>
    if isTail b then scanTail k (got + 1) (bits * 0x40 + (b.toNat - 0x80)) bs else .bad .badContinuation got

/-- Looks at the bytes that start with `b`. -/
def scan (b : UInt8) (bs : List UInt8) : Front :=
  match lead? b with
  | none => .bad .badStart 1
  | some l =>
    if l.follow = 0 then .char (Char.ofNat l.bits) 1
    else match bs with
      | [] => .bad .truncated 1
      | b₂ :: bs =>
        if l.low ≤ b₂ && b₂ ≤ l.high then scanTail (l.follow - 1) 2 (l.bits * 0x40 + (b₂.toNat - 0x80)) bs
        else .bad .badContinuation 1

/-- The first ill-formed part of some bytes. -/
structure Malformed where
  position : Nat
  /-- The bytes of the part. -/
  part : List UInt8
  fault : Fault
  deriving DecidableEq, Repr

/-- The wording for an ill-formed part: its byte if it has but one, and its first and last position. -/
def Malformed.message (m : Malformed) : String :=
  let place := match m.part with
    | [b] => "byte 0x" ++ String.ofList (Literal.hexDigits 2 b.toNat) ++ " in position " ++ toString m.position
    | part => "bytes in position " ++ toString m.position ++ "-" ++ toString (m.position + part.length - 1)
  "'utf-8' codec can't decode " ++ place ++ ": " ++ m.fault.message

/-- The characters of well-formed bytes, or their first ill-formed part. -/
def decodeFrom (position : Nat) : List UInt8 → Except Malformed (List Char)
  | [] => .ok []
  | b :: bs =>
    match scan b bs with
    | .char c n => (decodeFrom (position + n) (bs.drop (n - 1))).map (c :: ·)
    | .bad fault n => .error ⟨position, (b :: bs).take n, fault⟩
  termination_by bs => bs.length
  decreasing_by simp only [List.length_drop, List.length_cons]; omega

/-- Reads well-formed bytes. -/
def decode (bs : List UInt8) : Except Malformed (List Char) :=
  decodeFrom 0 bs

/-- The text of well-formed bytes. -/
def decode? (bs : List UInt8) : Option String :=
  match decode bs with
  | .ok cs => some (String.ofList cs)
  | .error _ => none

/-- The character that stands for an ill-formed part. -/
def replacement : Char := '\uFFFD'

/-- Reads any bytes; each maximal ill-formed part becomes one `replacement`. -/
def decodeLossy : List UInt8 → List Char
  | [] => []
  | b :: bs =>
    match scan b bs with
    | .char c n => c :: decodeLossy (bs.drop (n - 1))
    | .bad _ n => replacement :: decodeLossy (bs.drop (n - 1))
  termination_by bs => bs.length
  decreasing_by all_goals (simp only [List.length_drop, List.length_cons]; omega)

/-- The bytes of a text given as a string. -/
def ofString (s : String) : List UInt8 :=
  encode s.toList

/-- The text of any bytes, as a string. -/
def toStringLossy (bs : List UInt8) : String :=
  String.ofList (decodeLossy bs)

end Scratchpad.Text.Utf8
