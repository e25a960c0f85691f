namespace HotkeyScript.Text

-- For callers that show bytes as text; nothing that the command reads or writes is shown in this
-- way. The replacement character stands for the longest run of bytes that begins a character and
-- does not complete it, or for a byte that begins none.
def replacement : Char := '\ufffd'

def followers (first : UInt8) : Option Nat :=
  if first < 0x80 then some 0
  else if 0xc2 ≤ first && first ≤ 0xdf then some 1
  else if 0xe0 ≤ first && first ≤ 0xef then some 2
  else if 0xf0 ≤ first && first ≤ 0xf4 then some 3
  else none

-- The second byte is narrowed where a shorter form, a surrogate or too large a value would be
-- spelled.
def mayBeSecond (first second : UInt8) : Bool :=
  let low : UInt8 := if first = 0xe0 then 0xa0 else if first = 0xf0 then 0x90 else 0x80
  let high : UInt8 := if first = 0xed then 0x9f else if first = 0xf4 then 0x8f else 0xbf
  low ≤ second && second ≤ high

def mayFollow (byte : UInt8) : Bool := 0x80 ≤ byte && byte ≤ 0xbf

def continuation (first : UInt8) (count : Nat) (bytes : List UInt8) : List UInt8 :=
  match bytes.take count with
  | [] => []
  | second :: rest =>
    if mayBeSecond first second then second :: rest.takeWhile mayFollow else []

def codePoint (first : UInt8) (rest : List UInt8) : Nat :=
  let lead :=
    match rest.length with
    | 0 => first.toNat
    | 1 => first.toNat - 0xc0
    | 2 => first.toNat - 0xe0
    | _ => first.toNat - 0xf0
  rest.foldl (fun value byte => value * 64 + (byte.toNat - 0x80)) lead

def decodeLossy : Nat → List UInt8 → List Char
  | 0, _ => []
  | _, [] => []
  | bound + 1, first :: bytes =>
    match followers first with
    | none => replacement :: decodeLossy bound bytes
    | some count =>
      let rest := continuation first count bytes
      let shown := if rest.length = count then Char.ofNat (codePoint first rest) else replacement
      shown :: decodeLossy bound (bytes.drop rest.length)

def ofBytesLossy (bytes : ByteArray) : String :=
  String.ofList (decodeLossy bytes.size bytes.toList)

end HotkeyScript.Text
