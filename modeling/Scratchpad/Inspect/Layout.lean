import Scratchpad.Inspect.Quote
import Scratchpad.Inspect.Value
import Scratchpad.Lua.Name
import Scratchpad.Settings

/-!
# The printer

`inspect` shows a value as Lua source where it can. A table stands on one line if it holds scalars only and fits, and
otherwise has an item a line, indented by its depth. A table that is open already shows as `<table N>`, and a function,
thread or userdata always as `<kind N>`, where `N` counts the objects of that kind in the order in which they are first
reached. Below the depth limit, and inside `deepest` tables in any case, a table shows as an ellipsis. `inspect?` refuses
a value in which an integer is met that is too long to be written; values of the language hold none.
-/

namespace Scratchpad.Inspect

open Lua

/-- How values are laid out. -/
structure Layout where
  indent : Nat := 2
  inlineWidth : Nat := 72
  maxDepth : Option Nat := none
  deriving Repr

/-- The layout that settings ask for. -/
def Layout.ofSettings (s : Settings) : Layout :=
  { indent := s.indent, inlineWidth := s.inlineWidth, maxDepth := s.maxDepth }

/-- No table inside this many others is opened. -/
def deepest : Nat := 64

/-! ## Numbering -/

/-- The objects reached so far, the first one first. -/
abbrev Seen := List Ref

/-- The objects reached so far and `r`. -/
def Seen.reach (seen : Seen) (r : Ref) : Seen :=
  if seen.contains r then seen else seen ++ [r]

/-- The number of a reached object among those of its kind. -/
def Seen.number (seen : Seen) (r : Ref) : Nat :=
  (seen.filter fun s => s.kind == r.kind).idxOf r + 1

/-- The sign for an object that is not opened. -/
def placeholder (seen : Seen) (r : Ref) : List Char :=
  '<' :: r.kind.label.toList ++ ' ' :: natDigits (seen.number r) ++ ['>']

/-! ## Items -/

/-- The text of a scalar; nothing for a reference. -/
def scalarText : Value → List Char
  | .nil => "nil".toList
  | .bool b => (if b then "true" else "false").toList
  | .int i => intText i
  | .float x => floatText x
  | .text s => quoteText s.toList
  | .bytes bs => quoteBytes bs
  | .ref _ => []

/-- The text that a key shows without brackets, if it is an identifier. -/
def bareKey? (k : Value) : Option (List Char) :=
  let text? := match k with
    | .text s => some s
    | .bytes bs => Text.Utf8.decode? bs
    | _ => none
  match text? with
  | some s => if isIdentifier s then some s.toList else none
  | none => none

/-- Texts with a separator between them. -/
def joinItems (sep : List Char) : List (List Char) → List Char
  | [] => []
  | [t] => t
  | t :: u :: ts => t ++ sep ++ joinItems sep (u :: ts)

/-- A table on one line. -/
def oneLine (items : List (List Char)) : List Char :=
  '\x7b' :: ' ' :: joinItems [',', ' '] items ++ [' ', '\x7d']

/-- A table with an item a line; `level` tables are open around it. -/
def manyLines (indent level : Nat) (items : List (List Char)) : List Char :=
  let pad (k : Nat) := List.replicate (indent * k) ' '
  '\x7b' :: '\n' :: joinItems [',', '\n'] (items.map fun t => pad (level + 1) ++ t) ++ '\n' :: pad level ++ ['\x7d']

/-- What stands for a table that is not opened for its depth. -/
def ellipsis : List Char :=
  ['\x7b', '.', '.', '.', '\x7d']

/-! ## The traversal -/

section Traversal

variable (layout : Layout) (store : Store)

/-- A traversal step: it may reach objects that were not reached before. -/
abbrev Step (α : Type) := StateM Seen α

/-- An entry as an item; `value` shows one of its parts. -/
def entryItem (value : Value → Step (List Char)) (e : Value × Value) : Step (List Char) := do
  let key ← match bareKey? e.1 with
    | some t => pure t
    | none => (fun t => '[' :: t ++ [']']) <$> value e.1
  return key ++ " = ".toList ++ (← value e.2)

/-- The items of a table: the sequence, the other entries, the metatable. -/
def tableItems (value : Value → Step (List Char)) (values : List Value) (keyed : List (Value × Value))
    (metatable : Option Value) : Step (List (List Char)) := do
  let first ← values.mapM value
  let second ← keyed.mapM (entryItem value)
  let last ← match metatable with
    | none => pure []
    | some m => (fun t => ["<metatable> = ".toList ++ t]) <$> value m
  return first ++ second ++ last

/-- Puts the items of a table together. -/
def arrange (level : Nat) (scalars : Bool) (items : List (List Char)) : List Char :=
  let line := oneLine items
  if scalars && !line.contains '\n' && line.length ≤ layout.inlineWidth then line
  else manyLines layout.indent level items

/-- Shows a value. The tables `path` are open, and `room` more may be opened. -/
def inspectAt : Nat → List Nat → Value → Step (List Char)
  | room, path, v =>
    match v with
    | .ref r => do
      modify fun seen => seen.reach r
      if r.kind ≠ .table || path.contains r.id then return placeholder (← get) r
      else if layout.maxDepth.any fun d => d ≤ path.length then return ellipsis
      else match room with
        | 0 => return ellipsis
        | room + 1 =>
          let t := store r.id
          let (values, keyed) := splitEntries t.entries
          if values.isEmpty && keyed.isEmpty && t.metatable.isNone then return ['\x7b', '\x7d']
          let items ← tableItems (inspectAt room (r.id :: path)) values keyed t.metatable
          let scalars := t.metatable.isNone && values.all Value.isScalar && keyed.all fun e => e.2.isScalar
          return arrange layout path.length scalars items
    | v => return scalarText v

/-- The text of a value, whatever the length of its integers. -/
def inspect (v : Value) : String :=
  String.ofList (((inspectAt layout store deepest [] v).run []).1)

/-- Showing a value meets an integer that is too long. The tables `path` are open, and `room` more may be opened. -/
def refusesAt : Nat → List Nat → Value → Bool
  | room, path, v =>
    match v with
    | .int i => Integer.isTooLong i
    | .ref r =>
      if r.kind ≠ .table || path.contains r.id then false
      else if layout.maxDepth.any fun d => d ≤ path.length then false
      else match room with
        | 0 => false
        | room + 1 =>
          let t := store r.id
          let (values, keyed) := splitEntries t.entries
          let refuses := refusesAt room (r.id :: path)
          values.any refuses || keyed.any (fun e => refuses e.1 || refuses e.2) || t.metatable.any refuses
    | _ => false

/-- The text that `inspect` gives, or the message about an integer that is too long. -/
def inspect? (v : Value) : Except String String :=
  if refusesAt layout store deepest [] v then .error Integer.tooLongMessage else .ok (inspect layout store v)

end Traversal

end Scratchpad.Inspect
