import HotkeyScript.Options
import HotkeyScript.FileSystem
namespace HotkeyScript

structure Arguments where
  input : String
  out : Option String := none
  check : Bool := false
  escapeStrings : Bool := false
  fieldSeparator : Bool := false
  maxDepth : Option UInt32 := none
  newLine : Option NewLine := none
deriving DecidableEq, Repr

namespace Arguments

def options (a : Arguments) : Options where
  escapeStrings := a.escapeStrings
  fieldSeparator := a.fieldSeparator
  maxDepth := a.maxDepth.getD defaultDepthLimit
  newLine := a.newLine.getD .lineFeed

def readsStdin (a : Arguments) : Bool := Path.isDash a.input

inductive Stop where
  | help
  | version
  | unknownArgument
  | argumentConflict
  | tooManyValues
  | invalidValue
  | valueValidation
  | missingRequired
deriving DecidableEq, Repr

inductive ValueOption where
  | out | maxDepth | newLine
deriving DecidableEq, Repr

inductive Switch where
  | check | escapeStrings | fieldSeparator
deriving DecidableEq, Repr

inductive Meaning where
  | help
  | version
  | switch (switch : Switch)
  | valued (option : ValueOption)
deriving DecidableEq, Repr

def longMeaning? : String → Option Meaning
  | "help" => some .help
  | "version" => some .version
  | "check" => some (.switch .check)
  | "escape-strings" => some (.switch .escapeStrings)
  | "field-separator" => some (.switch .fieldSeparator)
  | "out" => some (.valued .out)
  | "max-depth" => some (.valued .maxDepth)
  | "new-line" => some (.valued .newLine)
  | _ => none

def shortMeaning? : Char → Option Meaning
  | 'h' => some .help
  | 'V' => some .version
  | 'o' => some (.valued .out)
  | _ => none

-- Named last and entered only when the next option, the input or the end shows that it is complete,
-- so that an unknown word in between is what gets reported.
inductive Pending where
  | option (option : ValueOption) (value : Option String)
  | input (path : String)
deriving DecidableEq, Repr

structure Draft where
  input : Option String := none
  out : Option String := none
  check : Bool := false
  escapeStrings : Bool := false
  fieldSeparator : Bool := false
  maxDepth : Option UInt32 := none
  newLine : Option NewLine := none
  pending : Option Pending := none
  onlyInputs : Bool := false
deriving DecidableEq, Repr

def newLine? (word : String) : Option NewLine :=
  match (word.toList.map Char.toLower) with
  | ['l', 'f'] => some .lineFeed
  | ['c', 'r', 'l', 'f'] => some .carriageReturnLineFeed
  | _ => none

def depth? (word : String) : Option UInt32 :=
  let (negative, digits) :=
    match word.toList with
    | '-' :: digits => (true, digits)
    | '+' :: digits => (false, digits)
    | digits => (false, digits)
  let value := Nat.ofDigitChars 10 digits 0
  if !digits.isEmpty && digits.all Char.isDigit && value < 0x100000000
      && (!negative || value = 0) then
    some (.ofNat value)
  else none

namespace Draft

-- A second value is refused before it is looked at.
def enter (d : Draft) (option : ValueOption) (value : String) : Except Stop Draft :=
  match option with
  | .out =>
    if d.out.isSome then .error .argumentConflict
    else if value.isEmpty then .error .invalidValue
    else .ok { d with out := some value }
  | .maxDepth =>
    if d.maxDepth.isSome then .error .argumentConflict
    else
      match depth? value with
      | some limit => .ok { d with maxDepth := some limit }
      | none => .error .valueValidation
  | .newLine =>
    if d.newLine.isSome then .error .argumentConflict
    else
      match newLine? value with
      | some newLine => .ok { d with newLine := some newLine }
      | none => .error .invalidValue

def settle (d : Draft) : Except Stop Draft :=
  match d.pending with
  | none => .ok d
  | some (.option _ none) => .error .invalidValue
  | some (.option option (some value)) => { d with pending := none }.enter option value
  | some (.input path) =>
    if path.isEmpty then .error .invalidValue
    else .ok { d with pending := none, input := some path }

def turnOn (d : Draft) (switch : Switch) : Except Stop Draft :=
  match switch with
  | .check => if d.check then .error .argumentConflict else .ok { d with check := true }
  | .escapeStrings =>
    if d.escapeStrings then .error .argumentConflict else .ok { d with escapeStrings := true }
  | .fieldSeparator =>
    if d.fieldSeparator then .error .argumentConflict else .ok { d with fieldSeparator := true }

def hasInput (d : Draft) : Bool :=
  d.input.isSome || (match d.pending with | some (.input _) => true | _ => false)

def takeInput (d : Draft) (path : String) : Except Stop Draft :=
  if d.hasInput then .error .unknownArgument
  else do
    let d ← d.settle
    .ok { d with pending := some (.input path) }

def takeMeaning (d : Draft) (meaning : Meaning) (attached : Option String) : Except Stop Draft :=
  match meaning, attached with
  | .valued option, some value => do (← d.settle).enter option value
  | .valued option, none => do .ok { ← d.settle with pending := some (.option option none) }
  | _, some _ => .error .tooManyValues
  | .switch switch, none => do (← d.settle).turnOn switch
  | .help, none => do let _ ← d.settle; .error .help
  | .version, none => do let _ ← d.settle; .error .version

def takeLong (d : Draft) (word : List Char) : Except Stop Draft :=
  let name := word.takeWhile (· != '=')
  let attached :=
    match word.dropWhile (· != '=') with
    | _ :: value => some (String.ofList value)
    | [] => none
  match longMeaning? (String.ofList name) with
  | some meaning => d.takeMeaning meaning attached
  | none => .error .unknownArgument

-- A letter and what follows it in the same word: for an option its value, perhaps after an
-- equals sign. The letters that take no value act at once, so nothing after them is looked at.
def takeShort (d : Draft) (letter : Char) (rest : List Char) : Except Stop Draft :=
  match shortMeaning? letter with
  | some (.valued option) =>
    let attached :=
      match rest with
      | [] => none
      | '=' :: value => some (String.ofList value)
      | value => some (String.ofList value)
    d.takeMeaning (.valued option) attached
  | some meaning => d.takeMeaning meaning none
  | none => .error .unknownArgument

def takeWord (d : Draft) (word : String) : Except Stop Draft :=
  if d.onlyInputs then d.takeInput word
  else
    match word.toList with
    | ['-', '-'] => .ok { d with onlyInputs := true }
    | '-' :: '-' :: long => d.takeLong long
    | '-' :: letter :: rest => d.takeShort letter rest
    | _ =>
      match d.pending with
      | some (.option option none) => .ok { d with pending := some (.option option (some word)) }
      | _ => d.takeInput word

def finish (d : Draft) : Except Stop Arguments := do
  let d ← d.settle
  match d.input with
  | none => .error .missingRequired
  | some input =>
    .ok ⟨input, d.out, d.check, d.escapeStrings, d.fieldSeparator, d.maxDepth, d.newLine⟩

end Draft

def ofWords (words : List String) : Except Stop Arguments := do
  (← words.foldlM Draft.takeWord {}).finish

end Arguments
end HotkeyScript
