import Scratchpad.Plain
import Scratchpad.Settings

/-!
# Drafts of settings

A draft gives every option a plain value, right or wrong. `validate` checks it and names the first fault; `toSettings`
reads the settings off a draft, leniently where it was not checked.
-/

namespace Scratchpad

/-- The options. -/
inductive OptionKey where
  | introLines | outputMark | resultMark | continuationMark | errorMark
  | showNil | separate | persist
  | chunkName | indent | inlineWidth | maxDepth
  deriving DecidableEq, Repr

namespace OptionKey

/-- The name under which an option is set. -/
def label : OptionKey → String
  | introLines => "intro_lines"
  | outputMark => "print_prefix"
  | resultMark => "result_prefix"
  | continuationMark => "result_continuation_prefix"
  | errorMark => "error_prefix"
  | showNil => "show_nil_results"
  | separate => "newline_after_result"
  | persist => "persist_env"
  | chunkName => "chunk_name"
  | indent => "inspect_indent"
  | inlineWidth => "inspect_inline_width"
  | maxDepth => "inspect_max_depth"

def all : List OptionKey :=
  [introLines, outputMark, resultMark, continuationMark, errorMark, showNil, separate, persist, chunkName, indent,
   inlineWidth, maxDepth]

/-- The option of a name. -/
def ofLabel? (name : String) : Option OptionKey :=
  all.find? fun k => k.label == name

/-- The options that hold marks, in the order of `Role.all`. -/
def marks : List OptionKey :=
  [outputMark, resultMark, continuationMark, errorMark]

/-- The value of an option that is not set. -/
def default : OptionKey → Plain
  | introLines => .list [.text "-- Scratch buffer for Lua evaluation", .text ""]
  | outputMark => .text "-- print: "
  | resultMark => .text "-- => "
  | continuationMark => .text "--    "
  | errorMark => .text "-- Error: "
  | showNil => .bool true
  | separate => .bool true
  | persist => .bool true
  | chunkName => .text "luapad"
  | indent => .int 2
  | inlineWidth => .int 72
  | maxDepth => .null

end OptionKey

/-- What is wrong with a configuration. -/
inductive SettingsError where
  | emptyText (key : OptionKey)
  /-- The mark of `key` begins the mark of `longer`. -/
  | shadows (key longer : OptionKey) (mark longerMark : String)
  | notBool (key : OptionKey)
  | notCount (key : OptionKey)
  | notDepth (key : OptionKey)
  /-- Names that are no options, in ascending order. -/
  | unknown (first : String) (names : List String)
  | notMapping (typeName : String)
  | missingFile (path : String)
  | malformed (path : String)
  deriving Repr

/-- What is wrong with the call that sets options. -/
inductive CallError where
  | nameNotText
  | reservedName (target : String)
  | unexpectedName (name : String)
  deriving Repr

/-- A failure to make a draft. -/
inductive DraftError where
  | settings (e : SettingsError)
  | call (e : CallError)
  deriving Repr

namespace SettingsError

/-- The wording of an error. -/
def message : SettingsError → String
  | emptyText k => k.label ++ " must be a non-empty string"
  | shadows k l m n =>
    k.label ++ " " ++ Text.Literal.ofText m ++ " is a prefix of " ++ l.label ++ " " ++ Text.Literal.ofText n
  | notBool k => k.label ++ " must be a boolean"
  | notCount k => k.label ++ " must be a non-negative integer"
  | notDepth k => k.label ++ " must be null or a non-negative integer"
  | unknown _ names => "unknown option(s): " ++ ", ".intercalate names
  | notMapping t => "configuration must be a mapping, got " ++ t
  | missingFile path => "configuration file not found: " ++ path
  | malformed path => "invalid YAML in " ++ path

/-- The name of the option at fault. -/
def key? : SettingsError → Option String
  | emptyText k => some k.label
  | shadows k _ _ _ => some k.label
  | notBool k => some k.label
  | notCount k => some k.label
  | notDepth k => some k.label
  | unknown first _ => some first
  | notMapping _ => none
  | missingFile _ => none
  | malformed _ => none

end SettingsError

/-- The wording of an error in a call. -/
def CallError.message : CallError → String
  | nameNotText => "keywords must be strings"
  | reservedName target => "PadConfig." ++ target ++ "() got multiple values for argument 'self'"
  | unexpectedName name => "PadConfig.__init__() got an unexpected keyword argument '" ++ name ++ "'"

/-- A value for every option. -/
structure Draft where
  value : OptionKey → Plain

namespace Draft

/-- The draft in which no option is set. -/
def default : Draft := ⟨OptionKey.default⟩

def set (d : Draft) (k : OptionKey) (v : Plain) : Draft :=
  ⟨fun k' => if k' = k then v else d.value k'⟩

/-! ## Reading settings off a draft -/

/-- A text, and nothing for any other value. -/
def textOf : Plain → String
  | .text s => s
  | _ => ""

/-- The lines that an introduction stands for. -/
def introOf (v : Plain) : List String :=
  let lines := match v with
    | .text s => Text.splitLines s
    | .list xs => xs.map Plain.display
    | .tuple xs => xs.map Plain.display
    | _ => []
  if lines.isEmpty then [""] else lines

def toSettings (d : Draft) : Settings where
  intro := introOf (d.value .introLines)
  outputMark := textOf (d.value .outputMark)
  resultMark := textOf (d.value .resultMark)
  continuationMark := textOf (d.value .continuationMark)
  errorMark := textOf (d.value .errorMark)
  showNil := (d.value .showNil).isTruthy
  separate := (d.value .separate).isTruthy
  persist := (d.value .persist).isTruthy
  chunkName := textOf (d.value .chunkName)
  indent := ((d.value .indent).int?.getD 0).toNat
  inlineWidth := ((d.value .inlineWidth).int?.getD 0).toNat
  maxDepth := (d.value .maxDepth).int?.map Int.toNat

/-! ## Checks -/

/-- Fails with `e` unless `ok`. -/
def require (ok : Bool) (e : SettingsError) : Except SettingsError Unit :=
  if ok then .ok () else .error e

def isBool : Plain → Bool
  | .bool _ => true
  | _ => false

/-- An integer that is not negative. -/
def isCount (v : Plain) : Bool :=
  v.int?.any fun i => 0 ≤ i

/-- The mark of `k` must not begin the mark of another option. -/
def checkShadow (d : Draft) (k l : OptionKey) : Except SettingsError Unit :=
  let m := textOf (d.value k)
  let n := textOf (d.value l)
  require (k = l || !Settings.startsWith n m) (.shadows k l m n)

/-- Checks every option, in a fixed order. -/
def validate (d : Draft) : Except SettingsError Unit := do
  OptionKey.marks.forM fun k => require (textOf (d.value k) ≠ "") (.emptyText k)
  OptionKey.marks.forM fun k => OptionKey.marks.forM fun l => d.checkShadow k l
  [OptionKey.showNil, .separate, .persist].forM fun k => require (isBool (d.value k)) (.notBool k)
  [OptionKey.indent, .inlineWidth].forM fun k => require (isCount (d.value k)) (.notCount k)
  require ((d.value .maxDepth) matches .null || isCount (d.value .maxDepth)) (.notDepth .maxDepth)
  require (textOf (d.value .chunkName) ≠ "") (.emptyText .chunkName)

/-! ## Making drafts -/

/-- The name of what is being configured, which no option can have. -/
def reserved : String := "self"

/-- The entries as named options. Every name has to be a text. -/
def namedOptions (entries : List (Plain × Plain)) : Except CallError (List (String × Plain)) :=
  entries.mapM fun (k, v) => match k with
    | .text s => Except.ok (s, v)
    | _ => Except.error .nameNotText

/-- The draft with the options that are known set. -/
def assign (d : Draft) (options : List (String × Plain)) : Draft :=
  options.foldl (fun d (k, v) => match OptionKey.ofLabel? k with
    | some key => d.set key v
    | none => d) d

/-- The draft with the given options, checked. -/
def extend (d : Draft) (entries : List (Plain × Plain)) : Except DraftError Draft := do
  let options ← (namedOptions entries).mapError .call
  let names := options.map (·.1)
  if names.contains reserved then throw (.call (.reservedName "extend"))
  match (names.filter fun k => (OptionKey.ofLabel? k).isNone).mergeSort (· ≤ ·) with
  | [] => pure ()
  | first :: rest => throw (.settings (.unknown first (first :: rest)))
  let d := d.assign options
  d.validate.mapError .settings
  return d

/-- The draft with the given options, unchecked. The first name that is no option is refused. -/
def ofOptions (entries : List (Plain × Plain)) : Except DraftError Draft := do
  let options ← (namedOptions entries).mapError .call
  match (options.map (·.1)).find? fun k => (OptionKey.ofLabel? k).isNone with
  | some k => throw (.call (if k = reserved then .reservedName "__init__" else .unexpectedName k))
  | none => return default.assign options

/-- The checked draft of a configuration; an empty one of any kind sets nothing. -/
def ofPlain (v : Plain) : Except DraftError Draft :=
  if !v.isTruthy then .ok default
  else match v with
    | .map entries => default.extend entries
    | _ => .error (.settings (.notMapping v.typeName))

end Draft

end Scratchpad
