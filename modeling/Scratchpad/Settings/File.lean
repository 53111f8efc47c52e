import Scratchpad.File
import Scratchpad.Settings.Draft
import Scratchpad.Yaml.Document

/-!
# Configuration files

A configuration file is a YAML text. Its options stand at the top, or under one heading of their own.
-/

namespace Scratchpad

/-- Why a configuration file gives no draft. -/
inductive LoadError where
  | draft (e : DraftError)
  /-- The bytes of the file are no text. -/
  | malformedText (m : Text.Utf8.Malformed)
  deriving Repr

namespace Draft

/-- The name of the heading under which all options may stand. -/
def heading : String := "luapad"

/-- The options under the heading, if the heading is all there is. -/
def underHeading : Plain → Plain
  | .map [(.text name, v)] => if name = heading then v else .map [(.text name, v)]
  | v => v

/-- The checked draft of the configuration file of a name with the given bytes. -/
def ofFile (name : String) (content? : Option (List UInt8)) : Except LoadError Draft :=
  match File.read content? with
  | .error .missing => .error (.draft (.settings (.missingFile (File.normalName name))))
  | .error (.malformed m) => .error (.malformedText m)
  | .ok text =>
    match Plain.ofYaml? text with
    | none => .error (.draft (.settings (.malformed (File.normalName name))))
    | some v => (ofPlain (underHeading v)).mapError .draft

end Draft

end Scratchpad
