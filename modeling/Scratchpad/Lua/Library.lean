import Scratchpad.Lua.Library.Base
import Scratchpad.Lua.Library.Coroutine
import Scratchpad.Lua.Library.Environment
import Scratchpad.Lua.Library.Format
import Scratchpad.Lua.Library.Math
import Scratchpad.Lua.Library.Sequence
import Scratchpad.Lua.Library.Text

/-!
# The standard library

What the functions do that are not closures of a program, and the store in which a program finds them. The modelled
language has the functions that `LibFunction` lists by name. All others, such as `load`, the patterns of strings, and
most of `io`, `os`, `utf8` and `debug`, are outside of it: programs find them under their names, and may pass and
compare them, but what a call of them does is not modelled (`other`). Finalizers do not run either.
-/

namespace Scratchpad.Lua.Library

open Scratchpad.Lua.Comp Operation

/-! ## What the functions do -/

/-- What `io.type` says of a value. -/
def ioType (v : Value) : Value :=
  match v with
  | .userdata .absent => .nil
  | .userdata _ => .ofString "file"
  | _ => .nil

/-- The functions on files, and the end of a run that calls a function outside of the modelled language. The error that
is raised then stands for nothing that the real function does; what is stated about all programs says nothing about
those that call it. -/
def other (c : Call) : Comp (List Value) :=
  match c.func with
  | .ioType => do return [ioType (← c.any 1)]
  | .fileText => pure [.ofString ("file (" ++ address (c.arg 1) ++ ")")]
  | f => raiseHere (bytes ("'" ++ f.label ++ "' is not available"))

/-- What a library function does. -/
def runFunction (c : Call) : Comp (List Value) :=
  [base?, text?, format?, sequence?, math?, coroutine?].findSome? (fun part => part c) |>.getD (other c)

/-- What a function does that is not a closure. -/
def run (b : Builtin) (args : List Value) : Comp (List Value) :=
  match b with
  | .lib f => runFunction ⟨f, args⟩
  | .wrapped id => resumeWrapped id args
  | .readThrough _ => readThrough args
  | .writeLocal _ => writeLocal args
  | .capture run => capture run args

/-! ## Where programs find them -/

/-- The functions that are globals themselves. -/
def baseFunctions : List LibFunction :=
  [.assert, .error, .getmetatable, .ipairs, .next, .pairs, .pcall, .print, .rawequal, .rawget, .rawlen, .rawset,
   .select, .setmetatable, .tonumber, .tostring, .type, .xpcall, .missing "collectgarbage", .missing "dofile",
   .missing "load", .missing "loadfile", .missing "require", .missing "warn"]

/-- Functions of a library that are outside of the modelled language, by their names. -/
def missing (table : String) (names : List String) : List LibFunction :=
  names.map fun n => .missing (table ++ "." ++ n)

/-- The libraries: a table each, by its name. -/
def libraries : List (String × List LibFunction) :=
  [("string", [.strByte, .strChar, .strFormat, .strLen, .strLower, .strRep, .strReverse, .strSub, .strUpper] ++
      missing "string" ["dump", "find", "gmatch", "gsub", "match", "pack", "packsize", "unpack"]),
   ("table", [.tabConcat, .tabInsert, .tabPack, .tabRemove, .tabSort, .tabUnpack] ++ missing "table" ["move"]),
   ("math", [.mathAbs, .mathCeil, .mathFloor, .mathMax, .mathMin, .mathSqrt, .mathTointeger, .mathType] ++
      missing "math" ["acos", "asin", "atan", "cos", "deg", "exp", "fmod", "log", "modf", "rad", "random", "randomseed",
        "sin", "tan", "ult"]),
   ("coroutine", [.coCreate, .coIsyieldable, .coResume, .coRunning, .coStatus, .coWrap, .coYield] ++
      missing "coroutine" ["close"]),
   ("io", [.ioType] ++ missing "io" ["close", "flush", "input", "lines", "open", "output", "popen", "read", "tmpfile",
      "write"]),
   ("os", missing "os" ["clock", "date", "difftime", "execute", "exit", "getenv", "remove", "rename", "setlocale",
      "time", "tmpname"]),
   ("utf8", missing "utf8" ["char", "codepoint", "codes", "len", "offset"]),
   ("debug", missing "debug" ["debug", "gethook", "getinfo", "getlocal", "getmetatable", "getregistry", "getupvalue",
      "getuservalue", "setcstacklimit", "sethook", "setlocal", "setmetatable", "setupvalue", "setuservalue",
      "traceback", "upvalueid", "upvaluejoin"]),
   ("package", missing "package" ["loadlib", "searchpath"])]

/-- The constants of the libraries. -/
def constants : List (String × List (String × Value)) :=
  [("math", [("huge", .float (.infinity false)), ("maxinteger", .int (Int64.maxValue)),
      ("mininteger", .int (Int64.minValue)), ("pi", .float ⟨0x400921FB54442D18⟩)]),
   ("io", [("stdin", .userdata .stdin), ("stdout", .userdata .stdout), ("stderr", .userdata .stderr)])]

/-- The events of the arithmetic of strings. -/
def stringEvents : List String :=
  ["add", "sub", "mul", "mod", "pow", "div", "idiv", "unm"]

/-- The last part of a path. -/
def lastName (path : String) : String :=
  String.ofList ((path.toList.reverse.takeWhile (· != '.')).reverse)

/-- A table with named entries. -/
def tableOf (entries : List (String × Value)) : Table :=
  entries.foldl (fun t e => t.set (.ofString e.1) e.2) {}

/-- The entries under which a library has its functions. -/
def functionEntries (fs : List LibFunction) : List (String × Value) :=
  fs.map fun f => (lastName f.label, .builtin (.lib f))

/-- The store with one more table and that table's number. -/
def addTable (s : Store) (t : Table) : Store × Nat :=
  (s.pushTable t, s.tables.size)

/-- The store with a library in it. -/
def addLibrary (s : Store) (name : String) (fs : List LibFunction) : Store :=
  let (s, id) := addTable s (tableOf (functionEntries fs ++ (constants.lookup name).getD []))
  s.rawSet Store.globals (.ofString name) (.table id)

/-- The methods of files. -/
def fileMethods : List LibFunction :=
  missing "file" ["close", "flush", "lines", "read", "seek", "setvbuf", "write"]

/-- The store with the metatables of strings and files. -/
def addMetatables (s : Store) : Store :=
  let strings := stringEvents.map fun e => ("__" ++ e, Value.builtin (.lib (.strArith e)))
  let (s, stringMeta) := addTable s
    (tableOf (("__index", s.rawGet Store.globals (.ofString "string")) :: strings))
  let (s, methods) := addTable s (tableOf (functionEntries fileMethods))
  let (s, fileMeta) := addTable s
    (tableOf [("__index", .table methods), ("__name", .ofString "FILE*"), ("__tostring", .builtin (.lib .fileText))])
  { s with stringMeta := some stringMeta, fileMeta := some fileMeta }

/-- The store in which programs begin. -/
def initialStore : Store :=
  let globals := tableOf (("_VERSION", .ofString "Lua 5.4") :: functionEntries baseFunctions)
  let s := (addTable {} globals).1.rawSet Store.globals (.ofString "_G") (.table Store.globals)
  addMetatables (libraries.foldl (fun s l => addLibrary s l.1 l.2) s)

end Scratchpad.Lua.Library
