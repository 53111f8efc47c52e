import Scratchpad.Lua.Name
import Scratchpad.Text.Blank
import Scratchpad.Text.Lines

/-!
# Snippets that bind names

A declaration such as `local x = 1` binds `x` for the run of its chunk only and yields no value. `lasting` appends lines
that copy the declared names into the environment and return them. It looks at the form of the stripped text (`Shape`)
and does not parse; a text of no such form is left alone.
-/

namespace Scratchpad.Snippet

open Text Lua

/-- What a snippet binds, judged by its form. -/
inductive Shape where
  /-- `local function name (` and anything after it. -/
  | localFunction (name : List Char)
  /-- `local names = value`. -/
  | localValue (names : List (List Char))
  /-- `local names`. -/
  | localNames (names : List (List Char))
  /-- `names = value`. -/
  | assignment (names : List (List Char))
  /-- Anything else. -/
  | other
  deriving DecidableEq, Repr

/-- A character of a list of names. -/
def isListChar (c : Char) : Bool :=
  isNameRest c || isSpace c || c == ','

/-- The pieces of a text between the characters that satisfy `p`, empty ones included. -/
def splitWhere (p : Char → Bool) : List Char → List (List Char)
  | [] => [[]]
  | c :: r =>
    if p c then [] :: splitWhere p r
    else match splitWhere p r with
      | [] => [[c]]
      | piece :: pieces => (c :: piece) :: pieces

/-- The parts of a text between commas and white space. -/
def splitParts (cs : List Char) : List (List Char) :=
  (splitWhere (fun c => c == ',' || isSpace c) cs).filter fun part => !part.isEmpty

/-- The names in a list of names; none if there is none or if a part is not an identifier. -/
def splitNames? (cs : List Char) : Option (List (List Char)) :=
  let parts := splitParts cs
  if parts.isEmpty then none
  else if parts.all fun p => isIdentifier (String.ofList p) then some parts
  else none

/-- What follows `word` at the front of a text. -/
def after? (word : String) (cs : List Char) : Option (List Char) :=
  if word.toList.isPrefixOf cs then some (cs.drop word.toList.length) else none

/-- What follows `word` and white space at the front of a text, without that white space. -/
def afterWord? (word : String) (cs : List Char) : Option (List Char) :=
  match after? word cs with
  | some (c :: r) => if isSpace c then some (stripLeft r) else none
  | _ => none

/-- The name of a text that begins `local function name (`. -/
def localFunction? (t : List Char) : Option (List Char) := do
  let t ← afterWord? "local" t
  let t ← afterWord? "function" t
  let name := t.takeWhile isNameRest
  guard (isWord name)
  guard ((stripLeft (t.dropWhile isNameRest)).head? = some '(')
  return name

/-- A text that begins with a list of names: the list and what follows it. -/
def nameList? (t : List Char) : Option (List Char × List Char) :=
  if isWord (t.take 1) then some (t.takeWhile isListChar, t.dropWhile isListChar) else none

/-- The names before an equals sign that begins the value of an assignment. A second equals sign makes a comparison. -/
def assigned? (t : List Char) : Option (List (List Char)) := do
  let (list, rest) ← nameList? t
  match rest with
  | '=' :: value =>
    guard (!value.isEmpty)
    guard ((stripLeft value).head? ≠ some '=')
    splitNames? list
  | _ => none

/-- The names of a text that is nothing but a list of names. -/
def listed? (t : List Char) : Option (List (List Char)) := do
  let (list, rest) ← nameList? t
  guard rest.isEmpty
  splitNames? list

/-- The form of a stripped text. -/
def Shape.ofText (t : List Char) : Shape :=
  match localFunction? t with
  | some name => .localFunction name
  | none =>
    match (afterWord? "local" t).bind assigned? with
    | some names => .localValue names
    | none =>
      match (afterWord? "local" t).bind listed? with
      | some names => .localNames names
      | none =>
        match assigned? t with
        | some names => .assignment names
        | none => .other

/-- The form of a snippet. -/
def shape (code : String) : Shape :=
  Shape.ofText (strip code.toList)

/-- The line that returns names. -/
def returnLine (names : List (List Char)) : String :=
  "return " ++ ", ".intercalate (names.map String.ofList)

/-- The line that copies a variable into the environment `env`. -/
def copyLine (env : String) (name : List Char) : String :=
  env ++ "[\"" ++ String.ofList name ++ "\"] = " ++ String.ofList name

/-- The lines that make the names of a shape last and yield their values. -/
def Shape.appendix (env : String) : Shape → List String
  | localFunction name => [copyLine env name, returnLine [name]]
  | localValue names => names.map (copyLine env) ++ [returnLine names]
  | localNames names => names.map (copyLine env) ++ [returnLine names]
  | assignment names => [returnLine names]
  | other => []

/-- The snippet with the lines that make its names last. -/
def lasting (env code : String) : String :=
  joinLines (code :: (shape code).appendix env)

/-- The names as a list between brackets. -/
def nameListText (names : List (List Char)) : String :=
  "[" ++ ", ".intercalate (names.map fun n => "'" ++ String.ofList n ++ "'") ++ "]"

/-- What the log says of a shape. -/
def Shape.report? : Shape → Option String
  | localFunction name => some ("rewrite: local function " ++ String.ofList name)
  | localValue names => some ("rewrite: local assignment " ++ nameListText names)
  | localNames names => some ("rewrite: local declaration " ++ nameListText names)
  | assignment names => some ("rewrite: assignment " ++ nameListText names)
  | other => none

end Scratchpad.Snippet
