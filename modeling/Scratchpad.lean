import Scratchpad.Text.Blank
import Scratchpad.Text.Lines
import Scratchpad.Text.Utf8
import Scratchpad.Text.Printable
import Scratchpad.Text.Literal
import Scratchpad.Number.Binary64
import Scratchpad.Number.Decimal
import Scratchpad.Plain
import Scratchpad.Surface
import Scratchpad.Paragraph
import Scratchpad.Lua.Name
import Scratchpad.Snippet
import Scratchpad.Settings
import Scratchpad.Settings.Draft
import Scratchpad.Inspect.Quote
import Scratchpad.Inspect.Value
import Scratchpad.Inspect.Layout
import Scratchpad.Block
import Scratchpad.Region
import Scratchpad.Number.Text
import Scratchpad.Lua.Bytes
import Scratchpad.Lua.Numeral
import Scratchpad.Lua.Token
import Scratchpad.Lua.Lexer
import Scratchpad.Lua.Syntax
import Scratchpad.Lua.Parser
import Scratchpad.Lua.Value
import Scratchpad.Lua.Table
import Scratchpad.Lua.Store
import Scratchpad.Lua.Computation
import Scratchpad.Lua.Arithmetic
import Scratchpad.Lua.Operation
import Scratchpad.Lua.Meaning
import Scratchpad.Lua.Library.Argument
import Scratchpad.Lua.Library.Base
import Scratchpad.Lua.Library.Text
import Scratchpad.Lua.Library.Math
import Scratchpad.Lua.Library.Coroutine
import Scratchpad.Lua.Library.Sequence
import Scratchpad.Lua.Library.Format
import Scratchpad.Lua.Library.Environment
import Scratchpad.Lua.Library
import Scratchpad.Lua.Machine
import Scratchpad.Interpreter
import Scratchpad.Evaluation
import Scratchpad.Registry
import Scratchpad.Session
import Scratchpad.Yaml.Cursor
import Scratchpad.Yaml.Scalar
import Scratchpad.Yaml.Token
import Scratchpad.Yaml.Tag
import Scratchpad.Yaml.Node
import Scratchpad.Yaml.Document
import Scratchpad.Text.Newline
import Scratchpad.File
import Scratchpad.Settings.File
import Scratchpad.Number.Integer
import Scratchpad.Log
import Scratchpad.Dialogue
import Scratchpad.Command.Request
import Scratchpad.Command.Usage
import Scratchpad.Command.Annotation
import Scratchpad.Command.Report
import Scratchpad.Main
import Scratchpad.Proofs.Surface
import Scratchpad.Proofs.Region
import Scratchpad.Proofs.Region.Undo
import Scratchpad.Proofs.Paragraph
import Scratchpad.Proofs.Session.Again
import Scratchpad.Proofs.Session.Edit
import Scratchpad.Proofs.Text.Utf8
import Scratchpad.Proofs.File
import Scratchpad.Proofs.Command.InPlace
import Scratchpad.Proofs.Session.Rerun
import Scratchpad.Proofs.Session.Code
import Scratchpad.Proofs.Lua.Call
import Scratchpad.Proofs.Lua.Ending
import Scratchpad.Proofs.Evaluation
import Scratchpad.Proofs.Session.Failure
import Scratchpad.Proofs.Lua.Parser.Reads
import Scratchpad.Proofs.Lua.Parser.Grammar
import Scratchpad.Proofs.Lua.Parser.Seam
import Scratchpad.Proofs.Lua.Parser.Scopes
import Scratchpad.Proofs.Lua.Parser.Program
import Scratchpad.Proofs.Lua.Parser.Appended
import Scratchpad.Proofs.Lua.Parser.Continued
import Scratchpad.Proofs.Lua.Lexer.Appended
import Scratchpad.Proofs.Lua.Lexer.Lines
import Scratchpad.Proofs.Lua.Lexer.Kinds
import Scratchpad.Proofs.Lua.Name
import Scratchpad.Proofs.Snippet
import Scratchpad.Proofs.Compile
import Scratchpad.Proofs.Inspect
import Scratchpad.Proofs.Inert
import Scratchpad.Proofs.Lua.Table
import Scratchpad.Proofs.Session.Active
import Scratchpad.Proofs.Session.RoundTrip
import Scratchpad.Proofs.Block
import Scratchpad.Proofs.Dialogue
import Scratchpad.Proofs.Inspect.Faithful
import Scratchpad.Proofs.Inspect.Quote
import Scratchpad.Proofs.Layers
import Scratchpad.Proofs.Blank
import Scratchpad.Proofs.Session.Scratch
import Scratchpad.Proofs.Snippet.Grammar
import Scratchpad.Proofs.Expression
import Scratchpad.Proofs.Lua.Delivery
import Scratchpad.Proofs.Interpreter
import Scratchpad.Proofs.Declaration
import Scratchpad.Proofs.Inspect.Outline
import Scratchpad.Proofs.Inspect.Signs
import Scratchpad.Proofs.Inspect.Spacing
import Scratchpad.Proofs.Number.Order
import Scratchpad.Proofs.Inspect.KeyOrder
import Scratchpad.Proofs.Inspect.Reordering
import Scratchpad.Proofs.Capture
import Scratchpad.Proofs.Text.WellFormed
import Scratchpad.Proofs.Number.Rounding
import Scratchpad.Proofs.Number.Text
import Scratchpad.Proofs.Inspect.Nesting
import Scratchpad.Proofs.Inspect.Depth
import Scratchpad.Proofs.Surface.Change
import Scratchpad.Proofs.Paragraph.Maximal
import Scratchpad.Proofs.Inspect.Parts
import Scratchpad.Proofs.Inspect.Written
