import HotkeyScript.Numeral
namespace HotkeyScript

structure Binary64 where
  bits : UInt64
deriving DecidableEq, Repr

namespace Binary64

def signBit : Nat := 0x8000000000000000

def hiddenBit : Nat := 0x10000000000000

def quantaPerUnit : Nat := Nat.pow 2 1074

def isNegative (x : Binary64) : Bool := signBit ≤ x.bits.toNat

def magnitude (x : Binary64) : Nat := x.bits.toNat % signBit

def exponentField (x : Binary64) : Nat := x.magnitude / hiddenBit

def fractionField (x : Binary64) : Nat := x.magnitude % hiddenBit

def infinityMagnitude : Nat := 2047 * hiddenBit

def isFinite (x : Binary64) : Bool := x.magnitude < infinityMagnitude

def isNaN (x : Binary64) : Bool := infinityMagnitude < x.magnitude

def isZero (x : Binary64) : Bool := x.magnitude = 0

def ofMagnitude (negative : Bool) (magnitude : Nat) : Binary64 :=
  ⟨.ofNat ((if negative then signBit else 0) + magnitude)⟩

def scale (x : Binary64) : Nat := x.exponentField - 1

def significand (x : Binary64) : Nat :=
  if x.exponentField = 0 then x.fractionField else hiddenBit + x.fractionField

def quanta (x : Binary64) : Nat := x.significand * Nat.pow 2 x.scale

def halfEven (num den : Nat) : Nat :=
  let below := num / den
  let rest := 2 * (num % den)
  if den < rest || (rest = den && below % 2 = 1) then below + 1 else below

-- The number nearest to `num / den`, a tie going to the even significand and anything past the
-- greatest number to infinity. A significand rounded up to the next power of two carries into the
-- exponent by itself, because the two fields are adjacent.
def ofRatio (negative : Bool) (num den : Nat) : Binary64 :=
  let quanta := num * quantaPerUnit
  let shift := Nat.log2 (quanta / den) - 52
  let magnitude := shift * hiddenBit + halfEven quanta (den * Nat.pow 2 shift)
  ofMagnitude negative (min magnitude infinityMagnitude)

def ofNat (n : Nat) : Binary64 := ofRatio false n 1

def tenPower (k : Nat) : Binary64 := ofNat (Nat.pow 10 k)

def times (x y : Binary64) : Binary64 :=
  ofRatio (x.isNegative != y.isNegative) (x.quanta * y.quanta) (quantaPerUnit * quantaPerUnit)

def dividedBy (x y : Binary64) : Binary64 :=
  ofRatio (x.isNegative != y.isNegative) x.quanta y.quanta

def greatestTenPower : Nat := 308

-- Multiplies by a power of ten, rounded to a number of its own first. There is no answer where
-- the product would be infinite; zero stays zero whatever the power.
def timesTenPower? (x : Binary64) (k : Nat) : Option Binary64 :=
  if k ≤ greatestTenPower then
    let product := x.times (tenPower k)
    if product.isFinite then some product else none
  else if x.isZero then some x
  else none

-- Divides by a power of ten. What one division cannot reach takes two, and whatever two cannot
-- reach is below the least number there is, for a significand of 64 bits.
def dividedByTenPower (x : Binary64) (k : Nat) : Binary64 :=
  if k ≤ greatestTenPower then x.dividedBy (tenPower k)
  else
    let once := x.dividedBy (tenPower greatestTenPower)
    let rest := k - greatestTenPower
    if rest ≤ greatestTenPower then once.dividedBy (tenPower rest)
    else once.dividedBy (tenPower greatestTenPower)

inductive Tie where
  | away
  | even
deriving DecidableEq, Repr

-- Significant digits, and how many digits stand before the point: fewer than none where zeros
-- follow it, more than there are where zeros come before it.
structure Decimation where
  digits : List Char
  point : Int
deriving DecidableEq, Repr

def upperMidpoint (x : Binary64) : Nat := 4 * x.quanta + 2 * Nat.pow 2 x.scale

def lowerMidpoint (x : Binary64) : Nat :=
  4 * x.quanta -
    (if x.significand = hiddenBit && 0 < x.scale then 1 else 2) * Nat.pow 2 x.scale

-- One step of the grid of multiples of `10^power`, in quarter quanta. Both this and the number
-- are scaled by `gridScale`, so that a negative power leaves whole numbers.
def gridUnit (power : Int) : Nat := Nat.pow 10 power.toNat * (4 * quantaPerUnit)

def gridScale (power : Int) : Nat := Nat.pow 10 (-power).toNat

def isNamedBy (x : Binary64) (power : Int) (multiple : Nat) : Bool :=
  let place := multiple * gridUnit power
  let low := x.lowerMidpoint * gridScale power
  let high := x.upperMidpoint * gridScale power
  if x.significand % 2 = 0 then low ≤ place && place ≤ high else low < place && place < high

def multipleBelow (x : Binary64) (power : Int) : Nat :=
  4 * x.quanta * gridScale power / gridUnit power

def nearestMultiple (x : Binary64) (tie : Tie) (power : Int) : Nat :=
  let below := x.multipleBelow power
  let past := 2 * (4 * x.quanta * gridScale power % gridUnit power)
  if past < gridUnit power then below
  else if gridUnit power < past then below + 1
  else
    match tie with
    | .away => below + 1
    | .even => below + below % 2

def multiple? (x : Binary64) (tie : Tie) (power : Int) : Option Nat :=
  let below := x.multipleBelow power
  match x.isNamedBy power below, x.isNamedBy power (below + 1) with
  | true, true => some (x.nearestMultiple tie power)
  | true, false => some below
  | false, true => some (below + 1)
  | false, false => none

def leadingPower (x : Binary64) : Int :=
  if quantaPerUnit ≤ x.quanta then
    (Nat.toDigits 10 (x.quanta / quantaPerUnit)).length - 1
  else
    -((Nat.toDigits 10 ((quantaPerUnit - 1) / x.quanta)).length : Int)

def withoutTrailingZeros (digits : List Char) : List Char :=
  (digits.reverse.dropWhile (· = '0')).reverse

-- Tries one digit, then two, and so on. Seventeen always suffice in this format.
def decimation (tie : Tie) (x : Binary64) : Decimation :=
  let powers := (List.range 17).map fun (finer : Nat) => x.leadingPower - finer
  let found := powers.findSome? fun power => (x.multiple? tie power).map fun m => (m, power)
  let finest := x.leadingPower - 16
  let (multiple, power) := found.getD (x.nearestMultiple tie finest, finest)
  let digits := Nat.toDigits 10 multiple
  ⟨withoutTrailingZeros digits, digits.length + power⟩

def scriptNumeral (x : Binary64) : Numeral :=
  if x.isZero then ⟨x.isNegative, ['0'], [], none⟩
  else
    let d := x.decimation .away
    .positional x.isNegative d.digits d.point

def withFraction (n : Numeral) : Numeral :=
  if n.fraction.isEmpty then { n with fraction := ['0'] } else n

def documentNumeral (x : Binary64) : Numeral :=
  if x.isZero then ⟨x.isNegative, ['0'], ['0'], none⟩
  else
    let d := x.decimation .even
    if -4 ≤ d.point && d.point ≤ 16 then
      withFraction (.positional x.isNegative d.digits d.point)
    else .scientific x.isNegative d.digits d.point

end Binary64

namespace Numeral

def wordBound : Nat := 0x10000000000000000

def signedBound : Nat := 0x8000000000000000

def integer? (n : Numeral) : Option Int :=
  if n.fraction.isEmpty && n.exponent.isNone then
    let value := digitsValue n.whole
    if n.negative then
      if 0 < value && value ≤ signedBound then some (-(value : Int)) else none
    else if value < wordBound then some value else none
  else none

def significand (taken : Nat) : List Char → Nat × List Char
  | [] => (taken, [])
  | c :: rest =>
    let longer := 10 * taken + (c.toNat - '0'.toNat)
    if longer < wordBound then significand longer rest else (taken, c :: rest)

def exponentValue : Option Exponent → Int
  | none => 0
  | some e =>
    let value : Int := digitsValue e.digits
    if e.negative then -value else value

-- The significand and its power of ten. A digit before the point that no longer fits still
-- counts for the power; one behind the point is dropped.
def scaled (n : Numeral) : Nat × Int :=
  let (whole, unread) := significand 0 n.whole
  let (all, dropped) := significand whole n.fraction
  (all, exponentValue n.exponent + unread.length - (n.fraction.length - dropped.length : Nat))

def binary64? (n : Numeral) : Option Binary64 :=
  let (digits, power) := n.scaled
  let start := Binary64.ofNat digits
  let size? :=
    if 0 ≤ power then start.timesTenPower? power.natAbs
    else some (start.dividedByTenPower power.natAbs)
  size?.map fun size => Binary64.ofMagnitude n.negative size.magnitude

end Numeral

end HotkeyScript
