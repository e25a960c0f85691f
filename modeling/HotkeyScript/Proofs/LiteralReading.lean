import HotkeyScript.Proofs.DecimalText
import HotkeyScript.Proofs.Readable
import HotkeyScript.Proofs.SinkLaw
import HotkeyScript.Text.Scanning
namespace HotkeyScript

namespace Text

theorem readBody_escapedChar (c : Char) (rest : List Char) :
    readBody (escapedChar c ++ rest) = readOn c (readBody rest) := by
  fun_cases escapedChar c with
  | case1 quote => subst quote; rfl
  | case2 _ lineFeed => subst lineFeed; rfl
  | case3 _ _ carriageReturn => subst carriageReturn; rfl
  | case4 _ _ _ tab => subst tab; rfl
  | case5 _ _ _ _ escape => subst escape; rfl
  | case6 noQuote _ _ _ noEscape => exact readBody_plain noQuote noEscape rest

theorem readBody_escaped (chars : List Char) {rest : List Char}
    (ends : Avoids (· = Token.quote) rest) :
    readBody (chars.flatMap escapedChar ++ Token.quote :: rest) = some (chars, rest) := by
  induction chars with
  | nil => exact readBody_quote ends
  | cons c chars ih =>
    rw [List.flatMap_cons, List.append_assoc, readBody_escapedChar, ih]
    rfl

theorem readLiteral_quoted {written : String} (text : String) {rest : String}
    (spelled : written.toList = quoted text) (ends : Avoids (· = Token.quote) rest.toList) :
    readLiteral (written ++ rest) = some (text, rest) := by
  have opened : (written ++ rest).toList
      = '\x22' :: (text.toList.flatMap escapedChar ++ Token.quote :: rest.toList) := by
    rw [String.toList_append, spelled, quoted]
    simp [Token.quote]
  rw [readLiteral, opened]
  simp only [readBody_escaped text.toList ends, Option.map_some, String.ofList_toList]

theorem visible_escapedChar (c : Char) : ∀ d ∈ escapedChar c, d ∉ ['\n', '\r', '\t'] := by
  fun_cases escapedChar c with
  | case6 _ lineFeed carriageReturn tab _ => simpa using ⟨lineFeed, carriageReturn, tab⟩
  | _ => simp [Token.quote, Token.escape]

theorem visible_quoted (text : String) : ∀ d ∈ quoted text, d ∉ ['\n', '\r', '\t'] := by
  have quote : Token.quote ∉ ['\n', '\r', '\t'] := by decide
  intro d among
  simp only [quoted, List.mem_append, List.mem_cons, List.not_mem_nil, or_false,
    List.mem_flatMap] at among
  rcases among with (rfl | ⟨c, _, spelled⟩) | rfl
  · exact quote
  · exact visible_escapedChar c d spelled
  · exact quote

end Text

namespace Numeral

def natural? (digits : List Char) : Option Nat :=
  if !digits.isEmpty && digits.all Char.isDigit then some (digitsValue digits) else none

def readInteger? : List Char → Option Int
  | '-' :: digits => (natural? digits).map fun n : Nat => -(n : Int)
  | digits => (natural? digits).map fun n : Nat => (n : Int)

theorem natural?_toDigits (n : Nat) : natural? (Nat.toDigits 10 n) = some n := by
  have digits : (Nat.toDigits 10 n).all Char.isDigit :=
    List.all_eq_true.mpr isDigit_of_mem_toDigits
  have value : digitsValue (Nat.toDigits 10 n) = n := Nat.ofDigitChars_ten_toDigits
  simp [natural?, digits, value, Nat.toDigits_ne_nil]

theorem readInteger?_ofInt (value : Int) : readInteger? (ofInt value).text = some value := by
  have text : (ofInt value).text = sign (value < 0) ++ Nat.toDigits 10 value.natAbs := by
    simp [ofInt, Numeral.text, fractionText, exponentText]
  rw [text]
  by_cases negative : value < 0
  · have size : -(value.natAbs : Int) = value := by omega
    simp only [negative, decide_true, sign, if_true, List.cons_append, List.nil_append,
      readInteger?, natural?_toDigits, Option.map_some, size]
  · have size : (value.natAbs : Int) = value := by omega
    simp only [negative, decide_false, sign, Bool.false_eq_true, if_false, List.nil_append]
    unfold readInteger?
    split
    · next digits begins =>
      have digit : Char.isDigit '-' :=
        isDigit_of_mem_toDigits '-' (begins ▸ List.mem_cons_self)
      cases digit
    · rw [natural?_toDigits, Option.map_some, size]

end Numeral

section

variable {options : Options} {context : Context}

theorem Expr.emission_primitive (value : Primitive) (within : ¬ options.maxDepth < context.depth) :
    (primitive value).emission options context = value.emission options := by
  rw [emission_eq_layout, if_neg within]
  simp [layout, Item.emission]

theorem Printer.emit_primitive {value : Primitive} (fine : (value.emission options).fault = none)
    (within : ¬ options.maxDepth < context.depth) :
    Printer.emit { options } (.expression (.primitive value) context)
      = (⟨options, ⟨(value.emission options).contents, none⟩⟩, none) := by
  rw [emit_fresh, Job.emission, Expr.emission_primitive value within, fine]
  rfl

-- A string literal that was escaped is read as the string, up to its end and not beyond, whatever
-- the string holds and whatever comes behind the literal, as long as that is not another quote.
theorem Printer.emit_string_literal (escaped : options.escapeStrings)
    (within : ¬ options.maxDepth < context.depth) (text : String) :
    let p := Printer.emit { options } (.expression (.string text) context)
    p.2 = none ∧
      (∀ rest : String, Text.Avoids (· = Token.quote) rest.toList →
        Text.readLiteral (p.1.text ++ rest) = some (text, rest)) ∧
      ∀ c ∈ p.1.text.toList, c ∉ ['\n', '\r', '\t'] := by
  intro p
  have result : p = (⟨options, ⟨(stringLiteral options text).contents, none⟩⟩, none) :=
    @emit_primitive options context (.string text) rfl within
  have spelled : p.1.text.toList = Text.quoted text := by
    rw [result]
    exact Expr.contents_stringLiteral escaped text
  refine ⟨congrArg Prod.snd result, ?_, ?_⟩
  · intro rest ends
    exact Text.readLiteral_quoted text spelled ends
  · rw [spelled]
    exact Text.visible_quoted text

theorem Printer.emit_string_literal_of_quotes :
    let options : Options := { escapeStrings := true }
    let text := "\x22\x60n\n\t\x22\x22"
    let rest := ", \x22x\x22"
    let p := Printer.emit { options } (.ofExpr (.string text))
    options.escapeStrings ∧ ¬ options.maxDepth < Context.root.depth ∧
      Text.Avoids (· = Token.quote) rest.toList ∧
      p.1.text = "\x22\x22\x22\x60\x60n\x60n\x60t\x22\x22\x22\x22\x22" ∧
      Text.readLiteral (p.1.text ++ rest) = some (text, rest) := by
  intro options text rest p
  have within : ¬ options.maxDepth < Context.root.depth := by decide
  have ends : Text.Avoids (· = Token.quote) rest.toList := by
    simp [rest, Token.quote]
  obtain ⟨_, read, _⟩ := @Printer.emit_string_literal options .root rfl within text
  exact ⟨rfl, within, ends, by decide +kernel, read rest ends⟩

-- A whole number is read as the number that it was, and a decimal with the sign, the digits and
-- the places that it had: what is written spells it digit by digit, so the reader has nothing to
-- round and no two decimals are written the same. Only the sign of a zero is not read again.
theorem Printer.emit_numbers (within : ¬ options.maxDepth < context.depth) :
    let written (value : Primitive) := Printer.emit { options } (.expression value context)
    (∀ n : Int64, (written n).2 = none ∧
      Numeral.readInteger? (written n).1.text.toList = some n.toInt) ∧
    (∀ d : Decimal, (written d).2 = none ∧ d.Spells (written d).1.text.toList ∧
      ((d.mantissa = 0 → d.negative = false) →
        Decimal.ofText? (written d).1.text.toList = some d)) ∧
    ∀ d d' : Decimal, (written d).1.text = (written d').1.text → d = d' := by
  intro written
  have integer (n : Int64) : written n
      = (⟨options, ⟨String.ofList (Numeral.ofInt n.toInt).text, none⟩⟩, none) := by
    refine (emit_primitive rfl within).trans ?_
    rw [Primitive.emission, Emission.contents_text]
  have decimal (d : Decimal) : written d = (⟨options, ⟨String.ofList d.text, none⟩⟩, none) := by
    refine (emit_primitive rfl within).trans ?_
    rw [Primitive.emission, Emission.contents_text]
  simp only [integer, decimal, text, String.toList_ofList]
  refine ⟨fun n => ⟨trivial, Numeral.readInteger?_ofInt n.toInt⟩, fun d => ?_, fun d d' same => ?_⟩
  · refine ⟨trivial, d.spells_text, fun unsigned => ?_⟩
    rw [Decimal.ofText?_text, Decimal.plain_eq_self unsigned]
  · exact Decimal.text_injective (String.ofList_injective same)

theorem Printer.emit_numbers_of_extremes :
    let written (value : Primitive) := Printer.emit {} (.ofExpr value)
    let least : Int64 := Int64.minValue
    let largest : Decimal := ⟨true, Decimal.mantissaBound - 1, 28, by decide, by decide⟩
    let tenth : Decimal := ⟨false, 10, 2, by decide, by decide⟩
    ¬ Options.maxDepth {} < Context.root.depth ∧
      (written least).1.text = "-9223372036854775808" ∧
      Numeral.readInteger? (written least).1.text.toList = some (-9223372036854775808) ∧
      (largest.mantissa = 0 → largest.negative = false) ∧
      (written largest).1.text = "-7.9228162514264337593543950335" ∧
      Decimal.ofText? (written largest).1.text.toList = some largest ∧
      (written tenth).1.text = "0.10" ∧
      Decimal.ofText? (written tenth).1.text.toList = some tenth := by
  intro written least largest tenth
  have within : ¬ Options.maxDepth {} < Context.root.depth := by decide
  have unsigned : largest.mantissa = 0 → largest.negative = false := by
    intro zero
    exact absurd zero (by decide)
  obtain ⟨integers, decimals, _⟩ := @Printer.emit_numbers {} .root within
  refine ⟨within, by decide +kernel, (integers least).2, unsigned, by decide +kernel,
    (decimals largest).2.2 unsigned, by decide +kernel, (decimals tenth).2.2 fun _ => rfl⟩

end
end HotkeyScript
