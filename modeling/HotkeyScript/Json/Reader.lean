import HotkeyScript.Json.Printer
namespace HotkeyScript.Json

def isBlank (c : Char) : Bool := c = ' ' || c = '\t' || c = '\n' || c = '\r'

def skipBlanks (cs : List Char) : List Char := cs.dropWhile isBlank

def hexDigit? (c : Char) : Option Nat :=
  if c.isDigit then some (c.toNat - '0'.toNat)
  else if 'a' ≤ c && c ≤ 'f' then some (c.toNat - 'a'.toNat + 10)
  else if 'A' ≤ c && c ≤ 'F' then some (c.toNat - 'A'.toNat + 10)
  else none

def hexUnit? (a b c d : Char) : Option Nat := do
  let a ← hexDigit? a
  let b ← hexDigit? b
  let c ← hexDigit? c
  let d ← hexDigit? d
  some (((a * 16 + b) * 16 + c) * 16 + d)

def shortEscape? : Char → Option Char
  | '\x22' => some '\x22'
  | '\\' => some '\\'
  | '/' => some '/'
  | 'b' => some '\x08'
  | 'f' => some '\x0c'
  | 'n' => some '\n'
  | 'r' => some '\r'
  | 't' => some '\t'
  | _ => none

-- The code points of a string up to its closing quote. An escape gives the unit it names, so
-- halves of surrogate pairs are still apart here.
def readUnits : List Char → Option (List Nat × List Char)
  | [] => none
  | '\x22' :: rest => some ([], rest)
  | '\\' :: 'u' :: a :: b :: c :: d :: rest => do
    let unit ← hexUnit? a b c d
    let (units, rest) ← readUnits rest
    some (unit :: units, rest)
  | '\\' :: c :: rest => do
    let escaped ← shortEscape? c
    let (units, rest) ← readUnits rest
    some (escaped.toNat :: units, rest)
  | c :: rest =>
    if c.toNat < 0x20 then none
    else do
      let (units, rest) ← readUnits rest
      some (c.toNat :: units, rest)

def isHighSurrogate (unit : Nat) : Bool := 0xd800 ≤ unit && unit < 0xdc00

def isLowSurrogate (unit : Nat) : Bool := 0xdc00 ≤ unit && unit < 0xe000

def isSurrogate (unit : Nat) : Bool := isHighSurrogate unit || isLowSurrogate unit

def joinSurrogates (high low : Nat) : Char :=
  Char.ofNat (0x10000 + (high - 0xd800) * 0x400 + (low - 0xdc00))

def joinUnits : List Nat → Option (List Char)
  | [] => some []
  | [unit] => if isSurrogate unit then none else some [Char.ofNat unit]
  | first :: second :: rest =>
    if isHighSurrogate first && isLowSurrogate second then
      (joinUnits rest).map (joinSurrogates first second :: ·)
    else if isSurrogate first then none
    else (joinUnits (second :: rest)).map (Char.ofNat first :: ·)

def readText (cs : List Char) : Option (JsonText × List Char) := do
  let (units, rest) ← readUnits cs
  some ((joinUnits units).map String.ofList, rest)

def readWhole (cs : List Char) : Option (List Char × List Char) :=
  match cs.takeWhile Char.isDigit, cs.dropWhile Char.isDigit with
  | [], _ => none
  | '0' :: _ :: _, _ => none
  | digits, rest => some (digits, rest)

def readDigits (cs : List Char) : Option (List Char × List Char) :=
  match cs.takeWhile Char.isDigit, cs.dropWhile Char.isDigit with
  | [], _ => none
  | digits, rest => some (digits, rest)

def readFraction : List Char → Option (List Char × List Char)
  | '.' :: rest => readDigits rest
  | rest => some ([], rest)

def readPower (cs : List Char) : Option (Exponent × List Char) :=
  match cs with
  | '-' :: rest => (readDigits rest).map fun (digits, rest) => (⟨true, digits⟩, rest)
  | '+' :: rest => (readDigits rest).map fun (digits, rest) => (⟨false, digits⟩, rest)
  | rest => (readDigits rest).map fun (digits, rest) => (⟨false, digits⟩, rest)

def readExponent : List Char → Option (Option Exponent × List Char)
  | 'e' :: rest => (readPower rest).map fun (power, rest) => (some power, rest)
  | 'E' :: rest => (readPower rest).map fun (power, rest) => (some power, rest)
  | rest => some (none, rest)

def readNumeral (cs : List Char) : Option (Numeral × List Char) := do
  let (negative, cs) := match cs with | '-' :: cs => (true, cs) | cs => (false, cs)
  let (whole, cs) ← readWhole cs
  let (fraction, cs) ← readFraction cs
  let (exponent, cs) ← readExponent cs
  some (⟨negative, whole, fraction, exponent⟩, cs)

mutual

def readValue : Nat → List Char → Option (Json × List Char)
  | 0, _ => none
  | bound + 1, cs =>
    match skipBlanks cs with
    | '\x22' :: rest => do
      let (text, rest) ← readText rest
      some (.string text, rest)
    | '[' :: rest =>
      match skipBlanks rest with
      | ']' :: rest => some (.array [], rest)
      | rest => do
        let (items, rest) ← readItems bound rest
        some (.array items, rest)
    | '\x7b' :: rest =>
      match skipBlanks rest with
      | '\x7d' :: rest => some (.object [], rest)
      | rest => do
        let (members, rest) ← readMembers bound rest
        some (.object members, rest)
    | 'n' :: 'u' :: 'l' :: 'l' :: rest => some (.null, rest)
    | 't' :: 'r' :: 'u' :: 'e' :: rest => some (.bool true, rest)
    | 'f' :: 'a' :: 'l' :: 's' :: 'e' :: rest => some (.bool false, rest)
    | rest => do
      let (numeral, rest) ← readNumeral rest
      some (.number numeral, rest)

def readItems : Nat → List Char → Option (List Json × List Char)
  | 0, _ => none
  | bound + 1, cs => do
    let (item, rest) ← readValue bound cs
    match skipBlanks rest with
    | ',' :: rest => do
      let (items, rest) ← readItems bound rest
      some (item :: items, rest)
    | ']' :: rest => some ([item], rest)
    | _ => none

def readMembers : Nat → List Char → Option (List (JsonText × Json) × List Char)
  | 0, _ => none
  | bound + 1, cs =>
    match skipBlanks cs with
    | '\x22' :: rest => do
      let (key, rest) ← readText rest
      match skipBlanks rest with
      | ':' :: rest => do
        let (value, rest) ← readValue bound rest
        match skipBlanks rest with
        | ',' :: rest => do
          let (members, rest) ← readMembers bound rest
          some ((key, value) :: members, rest)
        | '\x7d' :: rest => some ([(key, value)], rest)
        | _ => none
      | _ => none
    | _ => none

end

-- Every two steps of the readers use up a character at least.
def readBound (cs : List Char) : Nat := 2 * cs.length + 1

def ofChars? (cs : List Char) : Option Json := do
  let (value, rest) ← readValue (readBound cs) cs
  if (skipBlanks rest).isEmpty then some value else none

def ofText? (text : String) : Option Json := ofChars? text.toList

def occursOnce (members : List (JsonText × Json)) (name : String) : Bool :=
  (members.filter fun m => m.1 = some name).length ≤ 1

-- The values of the named fields, in that order, from an object or from an array that may stop
-- early. Other members of an object are passed over, but their keys must be strings.
def fields? (names : List String) : Json → Option (List (Option Json))
  | .object members =>
    if members.all (·.1.isSome) && names.all (occursOnce members) then
      some (names.map fun name => members.lookup (some name))
    else none
  | .array items =>
    if items.length ≤ names.length then
      some (items.map some ++ List.replicate (names.length - items.length) none)
    else none
  | _ => none

def optional? (read : Json → Option α) : Option Json → Option (Option α)
  | none => some none
  | some .null => some none
  | some value => (read value).map some

def orDefault? (default : α) (read : Json → Option α) : Option Json → Option α
  | none => some default
  | some value => read value

def name? (room : Nat) : Json → Option String
  | .string text => text
  | .object [(some name, .null)] => if 0 < room then some name else none
  | _ => none

def nestingLimit : Nat := 127

def decodeText? (read : Nat → Json → Option α) (text : String) : Option α :=
  (ofText? text).bind (read nestingLimit)

-- Reads a value of the model from a document that is given as one. It has no limit: no part of it
-- nests deeper than the whole.
def decode? (read : Nat → Json → Option α) (j : Json) : Option α := read j.depth j

end HotkeyScript.Json
