import HotkeyScript.CommandLine
import HotkeyScript.FileSystem
import HotkeyScript.Json.Reader
import HotkeyScript.Printer
import HotkeyScript.Expr.Document
namespace HotkeyScript

-- One step on the way from the failure seen to its cause. Causes that lie outside the program
-- have no wording of their own.
inductive Cause where
  | message (text : String)
  | document
  | system
deriving DecidableEq, Repr

inductive RunError where
  | unreadableStdin
  | unreadableFile (path : String)
  | notStatements (input : String)
  | unwritable (input : String) (fault : Fault)
  | directory (path : String)
  | file (path : String)
  | stdout
deriving DecidableEq, Repr

def notStatementsMessage : String := "input is not a valid statement list"

def RunError.chain : RunError → List Cause
  | .unreadableStdin => [.message "failed to read stdin", .system]
  | .unreadableFile path => [.message ("failed to read " ++ path), .system]
  | .notStatements input =>
    [.message ("failed to parse " ++ input), .message notStatementsMessage, .document]
  | .unwritable input fault => [.message ("failed to emit " ++ input), .message fault.message]
  | .directory path => [.message ("failed to create directory " ++ path), .system]
  | .file path => [.message ("failed to write " ++ path), .system]
  | .stdout => [.message "failed to write stdout", .system]

structure Outcome where
  script : String
  statementCount : Nat
  writtenTo : Option String := none
deriving DecidableEq, Repr

def statementsOfText? (text : String) : Option (List Stmt) :=
  Json.decodeText? Stmt.listOfJson? text

namespace Arguments

def inputName (a : Arguments) : String := if a.readsStdin then "<stdin>" else a.input

def compile (a : Arguments) (text : String) : Except RunError Outcome :=
  match statementsOfText? text with
  | none => .error (.notStatements a.inputName)
  | some statements =>
    match HotkeyScript.script a.options statements with
    | .ok script => .ok ⟨script, statements.length, none⟩
    | .error fault => .error (.unwritable a.inputName fault)

def outputFile? (a : Arguments) : Option String := if a.check then none else a.out

def readError (a : Arguments) : RunError :=
  if a.readsStdin then .unreadableStdin else .unreadableFile a.input

end Arguments

structure World where
  files : FileSystem := {}
  stdin : ByteArray := .empty
  stdout : String := ""
  stdoutCapacity : Option Nat := none

namespace World

def input? (w : World) (a : Arguments) : Option String :=
  (if a.readsStdin then some w.stdin else w.files.read? a.input).bind String.fromUTF8?

def deliver (w : World) (path : String) (script : String) : World × Except RunError Unit :=
  match w.files.makeParent path with
  | (files, false) => ({ w with files }, .error (.directory (Path.parent path)))
  | (files, true) =>
    match files.write? path script.toUTF8 with
    | some files => ({ w with files }, .ok ())
    | none => ({ w with files }, .error (.file path))

def run (w : World) (a : Arguments) : World × Except RunError Outcome :=
  match w.input? a with
  | none => (w, .error a.readError)
  | some text =>
    match a.compile text, a.outputFile? with
    | .error e, _ => (w, .error e)
    | .ok outcome, none => (w, .ok outcome)
    | .ok outcome, some path =>
      match w.deliver path outcome.script with
      | (w, .ok ()) => (w, .ok { outcome with writtenTo := some path })
      | (w, .error e) => (w, .error e)

def print (w : World) (text : String) : World × Bool :=
  let (sink, taken) := Sink.write ⟨w.stdout, w.stdoutCapacity⟩ text
  ({ w with stdout := sink.text }, taken)

-- A run with its output: a script that was neither written to a file nor only checked goes to the
-- standard output.
def command (w : World) (a : Arguments) : World × Except RunError Outcome :=
  match w.run a with
  | (w, .error e) => (w, .error e)
  | (w, .ok outcome) =>
    if a.check || outcome.writtenTo.isSome then (w, .ok outcome)
    else
      match w.print outcome.script with
      | (w, true) => (w, .ok outcome)
      | (w, false) => (w, .error .stdout)

end World

def versionLine : String := "ahkgen 0.1.0\n"

def usageText : String :=
  "Emit AutoHotkey source from a lowered syntax tree\n\n" ++
  "Usage: ahkgen [OPTIONS] <INPUT>\n\n" ++
  "Arguments:\n" ++
  "  <INPUT>  JSON file holding the statement list, or `-` to read stdin\n\n" ++
  "Options:\n" ++
  "  -o, --out <OUT>              Write the generated script here instead of stdout\n" ++
  "      --check                  Emit and report errors without writing any output\n" ++
  "      --escape-strings         Escape quotes, backticks and control characters in string " ++
  "literals\n" ++
  "      --field-separator        Write `.` between a field reference's target and its name\n" ++
  "      --max-depth <MAX_DEPTH>  Deepest expression nesting accepted before emission fails\n" ++
  "      --new-line <NEW_LINE>    Line terminator written after each statement [possible " ++
  "values: lf, crlf]\n" ++
  "  -h, --help                   Print help\n" ++
  "  -V, --version                Print version\n"

def Arguments.Stop.report : Arguments.Stop → String × UInt8
  | .help => (usageText, 0)
  | .version => (versionLine, 0)
  | _ => ("", 2)

def exitCode : Except RunError Outcome → UInt8
  | .ok _ => 0
  | .error _ => 1

namespace World

def execute (w : World) (words : List String) : World × UInt8 :=
  match Arguments.ofWords words with
  | .error stop =>
    let (text, code) := stop.report
    ((w.print text).1, code)
  | .ok a =>
    let (w, result) := w.command a
    (w, exitCode result)

end World
end HotkeyScript
