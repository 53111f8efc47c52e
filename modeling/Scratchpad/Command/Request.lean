import Scratchpad.Number.Integer

/-!
# Requests

What the arguments of the command ask for. Arguments are first told apart (`Mark`): options, the separator `--` behind
which nothing is an option, and words. A long option may be cut to any beginning that belongs to it alone, and its value
may follow after an equals sign. Then they are read from left to right (`readArguments`); the first fault ends the
reading, and so does a call for help.
-/

namespace Scratchpad

/-- The part of a file to evaluate, in lines counted from one. -/
inductive Target where
  | whole
  | line (n : Int)
  /-- The block around a line. -/
  | block (n : Int)
  | range (a b : Int)
  deriving DecidableEq, Repr

/-- What a call of the command asks for. -/
structure Request where
  /-- The file to evaluate; without one a dialogue is held. -/
  file : Option String := none
  target : Target := .whole
  /-- The configuration file. -/
  config : Option String := none
  /-- Write the result back to the file. -/
  inPlace : Bool := false
  /-- Show the log. -/
  verbose : Bool := false
  deriving DecidableEq, Repr

namespace Request

/-! ## Options -/

/-- The options of the command. -/
inductive Flag where
  | help | line | block | range | config | inPlace | verbose
  deriving DecidableEq, Repr

namespace Flag

/-- How an option is written in full. -/
def long : Flag → String
  | help => "--help"
  | line => "--line"
  | block => "--block"
  | range => "--range"
  | config => "--config"
  | inPlace => "--in-place"
  | verbose => "--verbose"

def all : List Flag :=
  [help, line, block, range, config, inPlace, verbose]

/-- The short form of the only option that has one. -/
def shortHelp : String := "-h"

/-- The number of words that follow an option. -/
def arity : Flag → Nat
  | help => 0
  | line => 1
  | block => 1
  | range => 2
  | config => 1
  | inPlace => 0
  | verbose => 0

/-- The option that is written so. -/
def ofExact? (s : String) : Option Flag :=
  if s = shortHelp then some help else all.find? fun f => f.long = s

/-- The options that begin so. -/
def ofStart (s : String) : List Flag :=
  all.filter fun f => s.toList.isPrefixOf f.long.toList

/-- How messages name an option. -/
def label : Flag → String
  | help => shortHelp ++ "/" ++ help.long
  | f => f.long

end Flag

/-- Why arguments cannot be read. -/
inductive Refusal where
  | ambiguous (argument : String) (options : List Flag)
  | missingValue (option : Flag)
  /-- A value is attached to an option that takes none. -/
  | unwantedValue (option : Flag) (value : String)
  | badNumber (option : Flag) (value : String)
  | conflict (option earlier : Flag)
  | unrecognized (arguments : List String)
  deriving DecidableEq, Repr

/-- The wording of a refusal. -/
def Refusal.message : Refusal → String
  | ambiguous a fs => "ambiguous option: " ++ a ++ " could match " ++ ", ".intercalate (fs.map Flag.long)
  | missingValue f =>
    "argument " ++ f.label ++ ": expected " ++ (if f.arity = 1 then "one argument" else toString f.arity ++ " arguments")
  | unwantedValue f v => "argument " ++ f.label ++ ": ignored explicit argument '" ++ v ++ "'"
  | badNumber f v => "argument " ++ f.label ++ ": invalid int value: '" ++ v ++ "'"
  | conflict f g => "argument " ++ f.label ++ ": not allowed with argument " ++ g.label
  | unrecognized as => "unrecognized arguments: " ++ " ".intercalate as

/-! ## Telling arguments apart -/

/-- What an argument is. -/
inductive Mark where
  | word
  | separator
  | option (f : Flag) (value : Option String)
  | unknownOption
  deriving DecidableEq, Repr

/-- The text before and after the first equals sign. -/
def splitValue? (s : String) : Option (String × String) :=
  match s.toList.dropWhile (· ≠ '=') with
  | _ :: value => some (String.ofList (s.toList.takeWhile (· ≠ '=')), String.ofList value)
  | [] => none

/-- An argument that begins with `--` and may be cut. -/
def markLong (s : String) : Except Refusal (Option Mark) :=
  let (start, value) := match splitValue? s with
    | some (start, value) => (start, some value)
    | none => (s, none)
  match Flag.ofExact? start, Flag.ofStart start with
  | some f, _ => .ok (some (.option f value))
  | none, [f] => .ok (some (.option f value))
  | none, [] => .ok none
  | none, fs => .error (.ambiguous s fs)

/-- The short form with what is attached to it: the letter may stand more than once. -/
def shortWith (value : List Char) : Mark :=
  .option .help (if value ≠ [] && value.all (· = 'h') then none else some (String.ofList value))

/-- An argument that begins with the short form. An equals sign may stand between it and what is attached. -/
def markShort? (s : String) : Option Mark :=
  match s.toList with
  | '-' :: 'h' :: '=' :: value => some (shortWith value)
  | '-' :: 'h' :: value => some (shortWith value)
  | _ => none

/-- An argument that begins like an option and is none of the known ones. -/
def markOther (s : String) : Mark :=
  if Integer.isNegative s || s.toList.contains ' ' then .word else .unknownOption

/-- Tells what an argument in front of the separator is. -/
def markOf (s : String) : Except Refusal Mark :=
  match s.toList with
  | '-' :: c :: _ =>
    match Flag.ofExact? s with
    | some f => .ok (.option f none)
    | none =>
      if c = '-' then do return (← markLong s).getD (markOther s)
      else .ok ((markShort? s).getD (markOther s))
  | _ => .ok .word

/-- The arguments with what they are. -/
def markAll : List String → Except Refusal (List (String × Mark))
  | [] => .ok []
  | a :: as =>
    if a = "--" then .ok ((a, .separator) :: as.map fun b => (b, .word))
    else do
      let m ← markOf a
      return (a, m) :: (← markAll as)

/-! ## Reading arguments -/

/-- What was read so far. -/
structure Progress where
  request : Request := {}
  /-- The place of the file was passed. -/
  fileRead : Bool := false
  /-- The option that chose the part of the file. -/
  chosen : Option Flag := none
  /-- The arguments that have no meaning. -/
  extra : List String := []

/-- Reads the integer value of an option. -/
def number (f : Flag) (value : String) : Except Refusal Int :=
  match Integer.ofText? value with
  | some n => .ok n
  | none => .error (.badNumber f value)

/-- Chooses a part of the file. -/
def choose (p : Progress) (f : Flag) (target : Target) : Except Refusal Progress :=
  match p.chosen with
  | some g => if g = f then .ok { p with request := { p.request with target } } else .error (.conflict f g)
  | none => .ok { p with request := { p.request with target }, chosen := some f }

/-- Applies an option to its values. -/
def apply (p : Progress) (f : Flag) (values : List String) : Except Refusal Progress :=
  match f, values with
  | .line, [v] => do choose p f (.line (← number f v))
  | .block, [v] => do choose p f (.block (← number f v))
  | .range, [a, b] => do choose p f (.range (← number f a) (← number f b))
  | .config, [v] => .ok { p with request := { p.request with config := some v } }
  | .inPlace, [] => .ok { p with request := { p.request with inPlace := true } }
  | .verbose, [] => .ok { p with request := { p.request with verbose := true } }
  | f, _ => .error (.missingValue f)

/-- What arguments come to. -/
inductive Reading where
  | request (r : Request)
  | help
  | refused (r : Refusal)
  deriving DecidableEq, Repr

/-- The reading when no argument is left. -/
def Progress.finish (p : Progress) : Reading :=
  if p.extra.isEmpty then .request p.request else .refused (.unrecognized p.extra)

/-- Reads the arguments from left to right. -/
def readArguments (p : Progress) : List (String × Mark) → Reading
  | [] => p.finish
  | (a, .word) :: as =>
    if p.fileRead then readArguments { p with extra := p.extra ++ [a] } as
    else
      let p := { p with request := { p.request with file := some a }, fileRead := true }
      match as with
      | (_, .separator) :: as => readArguments p as
      | as => readArguments p as
  | (a, .separator) :: as =>
    if p.fileRead then readArguments { p with extra := p.extra ++ [a] } as
    else match as with
      | (b, .word) :: as =>
        readArguments { p with request := { p.request with file := some b }, fileRead := true } as
      | as => readArguments { p with fileRead := true } as
  | (a, .unknownOption) :: as => readArguments { p with extra := p.extra ++ [a] } as
  | (_, .option .help none) :: _ => .help
  | (_, .option f (some value)) :: as =>
    if f.arity = 0 then .refused (.unwantedValue f value)
    else match apply p f [value] with
      | .ok p => readArguments p as
      | .error r => .refused r
  | (_, .option f none) :: as =>
    match f.arity, as with
    | 1, (v, .word) :: as =>
      match apply p f [v] with
      | .ok p => readArguments p as
      | .error r => .refused r
    | 2, (v, .word) :: (w, .word) :: as =>
      match apply p f [v, w] with
      | .ok p => readArguments p as
      | .error r => .refused r
    | 0, as =>
      match apply p f [] with
      | .ok p => readArguments p as
      | .error r => .refused r
    | _, _ => .refused (.missingValue f)
  termination_by as => as.length

/-- What the arguments of the command come to. -/
def ofArguments (as : List String) : Reading :=
  match markAll as with
  | .ok marked => readArguments {} marked
  | .error r => .refused r

end Request

end Scratchpad
