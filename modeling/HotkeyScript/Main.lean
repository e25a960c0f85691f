import HotkeyScript.Run
namespace HotkeyScript.Command

def readText (a : Arguments) : IO (Option String) := do
  try
    let bytes ←
      if a.readsStdin then (← IO.getStdin).readBinToEnd else IO.FS.readBinFile a.input
    return String.fromUTF8? bytes
  catch _ => return none

def succeeds (action : IO Unit) : IO Bool := do
  try
    action
    return true
  catch _ => return false

def deliver (path script : String) : IO (Except RunError Unit) := do
  let parent := Path.parent path
  let made ← if parent.isEmpty then pure true else succeeds (IO.FS.createDirAll parent)
  if !made then return .error (.directory parent)
  if ← succeeds (IO.FS.writeFile path script) then return .ok ()
  return .error (.file path)

def print (text : String) : IO Unit := do
  let stdout ← IO.getStdout
  stdout.putStr text
  stdout.flush

def causeText : Cause → String
  | .message text => text
  | .document => "the text is not a document of this form"
  | .system => "the system refused"

def report (e : RunError) : String :=
  match e.chain.map causeText with
  | [] => ""
  | outer :: causes =>
    "Error: " ++ outer ++ "\n\nCaused by:\n"
      ++ String.join (causes.map fun c => "    " ++ c ++ "\n")

def fail (e : RunError) : IO UInt32 := do
  IO.eprint (report e)
  return 1

-- The steps of `World.command`, taken on the files and streams of the system.
def run (a : Arguments) : IO UInt32 := do
  let some text ← readText a | fail a.readError
  match a.compile text with
  | .error e => fail e
  | .ok outcome =>
    match a.outputFile? with
    | some path =>
      match ← deliver path outcome.script with
      | .ok () => return 0
      | .error e => fail e
    | none =>
      if a.check then return 0
      if ← succeeds (print outcome.script) then return 0
      fail .stdout

end HotkeyScript.Command

def main (words : List String) : IO UInt32 := do
  match HotkeyScript.Arguments.ofWords words with
  | .ok a => HotkeyScript.Command.run a
  | .error stop =>
    let (text, code) := stop.report
    discard (HotkeyScript.Command.succeeds (HotkeyScript.Command.print text))
    if code != 0 then IO.eprint HotkeyScript.usageText
    return code.toUInt32
