import HotkeyScript.Numeral
namespace HotkeyScript

-- A string, or none where an escape names half of a surrogate pair. Such text is well formed
-- and may be passed over, but stands for no string.
abbrev JsonText := Option String

inductive Json where
  | null
  | bool (value : Bool)
  | number (numeral : Numeral)
  | string (text : JsonText)
  | array (items : List Json)
  | object (members : List (JsonText × Json))

namespace Json

def ofString (text : String) : Json := .string (some text)

def tagged (tag : String) (payload : Json) : Json := .object [(some tag, payload)]

def record (members : List (String × Json)) : Json :=
  .object (members.map fun m => (some m.1, m.2))

mutual

def depth : Json → Nat
  | .array items => itemsDepth items + 1
  | .object members => membersDepth members + 1
  | _ => 0

def itemsDepth : List Json → Nat
  | [] => 0
  | item :: rest => max item.depth (itemsDepth rest)

def membersDepth : List (JsonText × Json) → Nat
  | [] => 0
  | (_, value) :: rest => max value.depth (membersDepth rest)

end

def text? : Json → Option String
  | .string text => text
  | _ => none

def bool? : Json → Option Bool
  | .bool value => some value
  | _ => none

def numeral? : Json → Option Numeral
  | .number numeral => some numeral
  | _ => none

def controlEscape (c : Char) : List Char :=
  ['\\', 'u', '0', '0', Nat.digitChar (c.toNat / 16), Nat.digitChar (c.toNat % 16)]

def escapedChar (c : Char) : List Char :=
  match c with
  | '\x22' => ['\\', '\x22']
  | '\\' => ['\\', '\\']
  | '\x08' => ['\\', 'b']
  | '\x0c' => ['\\', 'f']
  | '\n' => ['\\', 'n']
  | '\r' => ['\\', 'r']
  | '\t' => ['\\', 't']
  | _ => if c.toNat < 0x20 then controlEscape c else [c]

-- Text that stands for no string is written as half a pair, which reads as the same again.
def unpairedEscape : List Char := ['\\', 'u', 'd', '8', '0', '0']

def quoted (text : JsonText) : List Char :=
  let body :=
    match text with
    | some text => text.toList.flatMap escapedChar
    | none => unpairedEscape
  '\x22' :: (body ++ ['\x22'])

mutual

def chars : Json → List Char
  | .null => ['n', 'u', 'l', 'l']
  | .bool true => ['t', 'r', 'u', 'e']
  | .bool false => ['f', 'a', 'l', 's', 'e']
  | .number numeral => numeral.text
  | .string text => quoted text
  | .array items => '[' :: (itemChars items ++ [']'])
  | .object members => '\x7b' :: (memberChars members ++ ['\x7d'])

def itemChars : List Json → List Char
  | [] => []
  | [item] => item.chars
  | item :: rest => item.chars ++ ',' :: itemChars rest

def memberChars : List (JsonText × Json) → List Char
  | [] => []
  | [(key, value)] => quoted key ++ ':' :: value.chars
  | (key, value) :: rest => quoted key ++ ':' :: (value.chars ++ ',' :: memberChars rest)

end

def compact (j : Json) : String := String.ofList j.chars

end Json
end HotkeyScript
