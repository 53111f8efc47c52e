import Scratchpad.Text.Newline
import Scratchpad.Text.Lines
import Scratchpad.Text.Utf8

/-!
# Files

A file is known by its name and holds bytes. Its text is read as UTF-8 with unified ends of lines. Names that differ
only in empty steps and steps to the same place name the same file (`normalName`).
-/

namespace Scratchpad

/-- Why there is no text to read. -/
inductive ReadError where
  | missing
  | malformed (m : Text.Utf8.Malformed)
  deriving DecidableEq, Repr

namespace File

/-- The text of a file with the given bytes, if there is one. -/
def read (content? : Option (List UInt8)) : Except ReadError String :=
  match content? with
  | none => .error .missing
  | some bs =>
    match Text.Utf8.decode bs with
    | .ok cs => .ok (String.ofList (Text.unifyNewlines cs))
    | .error m => .error (.malformed m)

/-- What an absolute name begins with: one stroke, and two only where there are exactly two. -/
def rootOf : List Char → List Char
  | '/' :: '/' :: '/' :: _ => ['/']
  | '/' :: '/' :: _ => ['/', '/']
  | '/' :: _ => ['/']
  | _ => []

/-- The name without steps that lead nowhere. -/
def normalName (name : String) : String :=
  let steps := (Text.splitAtChar '/' name.toList).filter fun s => s ≠ [] && s ≠ ['.']
  match rootOf name.toList ++ Text.joinWithChar '/' steps with
  | [] => "."
  | cs => String.ofList cs

end File

/-- The files of a directory by their names. -/
structure Directory where
  files : List (String × List UInt8) := []
  deriving Repr

namespace Directory

/-- What the file of a name holds. -/
def find? (d : Directory) (name : String) : Option (List UInt8) :=
  d.files.lookup (File.normalName name)

/-- The directory after a text was written to a file. -/
def write (d : Directory) (name text : String) : Directory :=
  let name := File.normalName name
  let bytes := Text.Utf8.ofString text
  if (d.files.lookup name).isSome then ⟨d.files.map fun f => if f.1 = name then (name, bytes) else f⟩
  else ⟨d.files ++ [(name, bytes)]⟩

end Directory

end Scratchpad
