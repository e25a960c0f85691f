namespace HotkeyScript

structure Exponent where
  negative : Bool
  digits : List Char
deriving DecidableEq, Repr

structure Numeral where
  negative : Bool
  whole : List Char
  fraction : List Char := []
  exponent : Option Exponent := none
deriving DecidableEq, Repr

namespace Numeral

def digitsValue (digits : List Char) : Nat :=
  Nat.ofDigitChars 10 digits 0

def sign (negative : Bool) : List Char :=
  if negative then ['-'] else []

def exponentText : Option Exponent → List Char
  | none => []
  | some e => 'e' :: (if e.negative then '-' else '+') :: e.digits

def fractionText (fraction : List Char) : List Char :=
  if fraction.isEmpty then [] else '.' :: fraction

def text (n : Numeral) : List Char :=
  sign n.negative ++ n.whole ++ fractionText n.fraction ++ exponentText n.exponent

def ofNat (n : Nat) : Numeral := ⟨false, Nat.toDigits 10 n, [], none⟩

def ofInt (n : Int) : Numeral := ⟨n < 0, Nat.toDigits 10 n.natAbs, [], none⟩

-- The digits with a point after the first `point` of them, counted from before the first digit
-- when negative; zeros fill whatever lies between the digits and the point.
def positional (negative : Bool) (digits : List Char) (point : Int) : Numeral :=
  if point ≤ 0 then
    ⟨negative, ['0'], List.replicate point.natAbs '0' ++ digits, none⟩
  else
    let before := point.toNat
    ⟨negative, digits.take before ++ List.replicate (before - digits.length) '0',
      digits.drop before, none⟩

def scientific (negative : Bool) (digits : List Char) (point : Int) : Numeral :=
  let power := point - 1
  ⟨negative, digits.take 1, digits.drop 1,
    some ⟨power < 0, Nat.toDigits 10 power.natAbs⟩⟩

end Numeral

namespace Decimal

def mantissaBound : Nat := 0x1000000000000000000000000

def greatestScale : Nat := 28

end Decimal

structure Decimal where
  negative : Bool
  mantissa : Nat
  scale : Nat
  mantissa_lt : mantissa < Decimal.mantissaBound
  scale_le : scale ≤ Decimal.greatestScale
deriving DecidableEq, Repr

namespace Decimal

def ofParts? (negative : Bool) (mantissa scale : Nat) : Option Decimal :=
  if bounded : mantissa < mantissaBound ∧ scale ≤ greatestScale then
    some ⟨negative, mantissa, scale, bounded.1, bounded.2⟩
  else none

theorem ofParts?_self (d : Decimal) : ofParts? d.negative d.mantissa d.scale = some d := by
  simp [ofParts?, d.mantissa_lt, d.scale_le]

def paddedDigits (d : Decimal) : List Char :=
  let digits := Nat.toDigits 10 d.mantissa
  List.replicate (d.scale + 1 - digits.length) '0' ++ digits

def numeral (d : Decimal) : Numeral :=
  let digits := d.paddedDigits
  let front := digits.length - d.scale
  ⟨d.negative, digits.take front, digits.drop front, none⟩

def text (d : Decimal) : List Char := d.numeral.text

abbrev Unsigned := Nat × Nat

def digit (c : Char) : Nat := c.toNat - '0'.toNat

-- Ends the number at a digit that does not fit: five or more rounds up. A mantissa that rounding
-- pushes past the bound gives up a place.
def roundOn (mantissa places next : Nat) : Option Unsigned :=
  if next < 5 then some (mantissa, places)
  else if mantissa + 1 < mantissaBound then some (mantissa + 1, places)
  else if places = 0 then none
  else some ((mantissa + 5) / 10, places - 1)

-- The least mantissa for which separators before the digit that decides the rounding are
-- skipped. Below it a separator in this position stands for a zero.
def separatorSkipBound : Nat := 18446744073709549060

def cutOff (mantissa places : Nat) (rest : List Char) : Option Unsigned :=
  if rest.all fun c => c.isDigit || c = '_' then
    let deciding :=
      if separatorSkipBound ≤ mantissa then rest.dropWhile (· = '_') else rest
    match deciding with
    | [] => some (mantissa, places)
    | c :: _ => roundOn mantissa places (if c = '_' then 0 else digit c)
  else none

def readUnsigned (pointed digits : Bool) (mantissa places : Nat) : List Char → Option Unsigned
  | [] => if digits then some (mantissa, places) else none
  | c :: rest =>
    if places = greatestScale then cutOff mantissa places (c :: rest)
    else if c.isDigit then
      let longer := 10 * mantissa + digit c
      if longer < mantissaBound then
        readUnsigned pointed true longer (if pointed then places + 1 else places) rest
      else if pointed then cutOff mantissa places (c :: rest)
      else none
    else if c = '.' && !pointed then readUnsigned true digits mantissa places rest
    else if c = '_' && digits then readUnsigned pointed digits mantissa places rest
    else none

def readPlain (text : List Char) : Option Decimal := do
  let (negative, body) :=
    match text with
    | '-' :: body => (true, body)
    | '+' :: body => (false, body)
    | body => (false, body)
  let (mantissa, places) ← readUnsigned false false 0 0 body
  ofParts? (negative && mantissa != 0) mantissa places

def readCount (text : List Char) : Option Nat :=
  let digits := match text with | '+' :: digits => digits | digits => digits
  let count := Numeral.digitsValue digits
  if !digits.isEmpty && digits.all Char.isDigit && count < 0x100000000 then some count else none

def withoutDigits (mantissa count : Nat) : Nat :=
  (mantissa + Nat.pow 10 count / 2) / Nat.pow 10 count

-- Moves the point left by giving the number more places. Those it has no room for are rounded
-- away, and a number that becomes zero by that keeps its sign.
def shiftDown (d : Decimal) (count : Nat) : Option Decimal :=
  if count ≤ greatestScale then
    let surplus := d.scale + count - greatestScale
    ofParts? d.negative (withoutDigits d.mantissa surplus) (d.scale + count - surplus)
  else none

def shiftUp (d : Decimal) (count : Nat) : Option Decimal :=
  if count ≤ d.scale then ofParts? d.negative d.mantissa (d.scale - count)
  else if count ≤ greatestScale then
    ofParts? d.negative (d.mantissa * Nat.pow 10 (count - d.scale)) 0
  else none

def readScientific (text : List Char) : Option Decimal := do
  let isMark := fun c => c = 'e' || c = 'E'
  let base := text.takeWhile (!isMark ·)
  match text.dropWhile (!isMark ·) with
  | _mark :: '-' :: power => shiftDown (← readPlain base) (← readCount power)
  | _mark :: power => shiftUp (← readPlain base) (← readCount power)
  | [] => none

def ofText? (text : List Char) : Option Decimal :=
  (readPlain text).orElse fun _ => readScientific text

end Decimal

end HotkeyScript
