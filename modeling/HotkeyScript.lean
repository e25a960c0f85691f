import HotkeyScript.Assembly
import HotkeyScript.Binary64
import HotkeyScript.CommandLine
import HotkeyScript.Emission
import HotkeyScript.Expr.Basic
import HotkeyScript.Expr.Document
import HotkeyScript.Expr.Emission
import HotkeyScript.Expr.Equality
import HotkeyScript.FileSystem
import HotkeyScript.Json.Printer
import HotkeyScript.Json.Reader
import HotkeyScript.LogFormat
import HotkeyScript.Main
import HotkeyScript.Numeral
import HotkeyScript.Options
import HotkeyScript.Printer
import HotkeyScript.Run
import HotkeyScript.Text.Lossy
import HotkeyScript.Text.Printable
import HotkeyScript.Text.Runs
import HotkeyScript.Text.Scanning
import HotkeyScript.Token
import HotkeyScript.Writer
import HotkeyScript.Proofs.AssignmentForms
import HotkeyScript.Proofs.Brackets
import HotkeyScript.Proofs.DecimalText
import HotkeyScript.Proofs.Delivery
import HotkeyScript.Proofs.DepthLimit
import HotkeyScript.Proofs.DocumentText
import HotkeyScript.Proofs.DynamicNames
import HotkeyScript.Proofs.EqualTrees
import HotkeyScript.Proofs.Equality
import HotkeyScript.Proofs.ExactReading
import HotkeyScript.Proofs.FirstFault
import HotkeyScript.Proofs.FloatReading
import HotkeyScript.Proofs.FloatText
import HotkeyScript.Proofs.Frame
import HotkeyScript.Proofs.Grouping
import HotkeyScript.Proofs.InputContract
import HotkeyScript.Proofs.Layout
import HotkeyScript.Proofs.LineStructure
import HotkeyScript.Proofs.Lines
import HotkeyScript.Proofs.LiteralReading
import HotkeyScript.Proofs.Literals
import HotkeyScript.Proofs.NestedCalls
import HotkeyScript.Proofs.NestingLimit
import HotkeyScript.Proofs.NumberText
import HotkeyScript.Proofs.Places
import HotkeyScript.Proofs.RawTexts
import HotkeyScript.Proofs.Readable
import HotkeyScript.Proofs.RecordReading
import HotkeyScript.Proofs.Reencoding
import HotkeyScript.Proofs.RoundTrip
import HotkeyScript.Proofs.SinkLaw
import HotkeyScript.Proofs.Spelling
import HotkeyScript.Proofs.StatementFlag
import HotkeyScript.Proofs.Styles
import HotkeyScript.Proofs.Trimming
import HotkeyScript.Proofs.Unambiguous
import HotkeyScript.Proofs.Writing
