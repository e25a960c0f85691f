import HotkeyScript.Json.Reader
import HotkeyScript.Binary64
import HotkeyScript.Text.Runs
namespace HotkeyScript

namespace Numeral

def goesOn (c : Char) : Bool := c.isDigit || c = '.' || c = 'e' || c = 'E'

-- Spelled as documents spell numbers: digits on both sides of a point, digits in an exponent, and
-- no zero before another digit.
structure WellFormed (n : Numeral) : Prop where
  whole : ∀ c ∈ n.whole, c.isDigit
  whole_ne_nil : n.whole ≠ []
  leading : n.whole.head? = some '0' → n.whole = ['0']
  fraction : ∀ c ∈ n.fraction, c.isDigit
  exponent : ∀ e ∈ n.exponent, e.digits ≠ [] ∧ ∀ c ∈ e.digits, c.isDigit

theorem isDigit_of_mem_toDigits {n : Nat} : ∀ c ∈ Nat.toDigits 10 n, c.isDigit :=
  fun _ among => Nat.isDigit_of_mem_toDigits (by decide) (by decide) among

theorem head_toDigits {n : Nat} (positive : 0 < n) : (Nat.toDigits 10 n).head? ≠ some '0' := by
  have digit : ∀ k < 10, 0 < k → some (Nat.digitChar k) ≠ some '0' := by decide
  induction n using Nat.strongRecOn with
  | ind n ih =>
    by_cases small : n < 10
    · rw [Nat.toDigits_of_lt_base small]
      exact digit n small positive
    · have higher := ih (n / 10) (by omega) (by omega)
      rw [Nat.toDigits_of_base_le (by decide) (by omega), List.head?_append]
      cases begins : (Nat.toDigits 10 (n / 10)).head? with
      | none => exact absurd (List.head?_eq_none_iff.mp begins) Nat.toDigits_ne_nil
      | some c => rwa [begins] at higher

theorem leading_toDigits {n : Nat} (zero : (Nat.toDigits 10 n).head? = some '0') :
    Nat.toDigits 10 n = ['0'] := by
  cases n with
  | zero => rfl
  | succ n => exact absurd zero (head_toDigits (by omega))

theorem ofInt_wellFormed (value : Int) : (ofInt value).WellFormed where
  whole := isDigit_of_mem_toDigits
  whole_ne_nil := Nat.toDigits_ne_nil
  leading := leading_toDigits
  fraction := by simp [ofInt]
  exponent := by simp [ofInt]

def spelledWith (c : Char) : Bool := goesOn c || c = '-' || c = '+'

theorem spelledWith_of_mem_text {n : Numeral} (whole : ∀ c ∈ n.whole, c.isDigit)
    (fraction : ∀ c ∈ n.fraction, c.isDigit)
    (exponent : ∀ e ∈ n.exponent, ∀ c ∈ e.digits, c.isDigit) :
    ∀ c ∈ n.text, spelledWith c := by
  have digit (c : Char) (isDigit : c.isDigit) : spelledWith c := by
    simp [spelledWith, goesOn, isDigit]
  obtain ⟨negative, whole_digits, fraction_digits, power⟩ := n
  simp only [text, List.forall_mem_append]
  refine ⟨⟨⟨?_, fun c own => digit c (whole c own)⟩, ?_⟩, ?_⟩
  · cases negative <;> simp [sign, spelledWith]
  · cases fraction_digits with
    | nil => simp [fractionText]
    | cons first rest =>
      rw [fractionText, if_neg (by simp), List.forall_mem_cons]
      exact ⟨by decide, fun c own => digit c (fraction c own)⟩
  · cases power with
    | none => simp [exponentText]
    | some e =>
      rw [exponentText, List.forall_mem_cons, List.forall_mem_cons]
      refine ⟨by decide, ?_, fun c own => digit c (exponent e rfl c own)⟩
      split <;> decide

theorem WellFormed.spelledWith {n : Numeral} (wellFormed : n.WellFormed) :
    ∀ c ∈ n.text, Numeral.spelledWith c :=
  spelledWith_of_mem_text wellFormed.whole wellFormed.fraction
    fun e power => (wellFormed.exponent e power).2

theorem integer?_ofInt {value : Int} (low : -signedBound ≤ value) (high : value < wordBound) :
    (ofInt value).integer? = some value := by
  have digits : digitsValue (Nat.toDigits 10 value.natAbs) = value.natAbs :=
    Nat.ofDigitChars_ten_toDigits
  simp only [integer?, ofInt, digits, List.isEmpty_nil, Option.isNone_none, Bool.and_self, if_true,
    decide_eq_true_eq, Bool.and_eq_true]
  split
  · rw [if_pos (by omega)]
    exact congrArg some (by omega)
  · rw [if_pos (by omega)]
    exact congrArg some (by omega)

end Numeral

namespace Json

variable {rest : List Char}

theorem readWhole_digits {digits : List Char} (all : ∀ c ∈ digits, c.isDigit)
    (some_digit : digits ≠ []) (leading : digits.head? = some '0' → digits = ['0'])
    (ends : Text.Avoids Char.isDigit rest) :
    readWhole (digits ++ rest) = some (digits, rest) := by
  rw [readWhole, Text.takeWhile_run all ends, Text.dropWhile_run all ends]
  split
  · exact absurd rfl some_digit
  · cases leading rfl
  · rfl

theorem readDigits_digits {digits : List Char} (all : ∀ c ∈ digits, c.isDigit)
    (some_digit : digits ≠ []) (ends : Text.Avoids Char.isDigit rest) :
    readDigits (digits ++ rest) = some (digits, rest) := by
  rw [readDigits, Text.takeWhile_run all ends, Text.dropWhile_run all ends]
  split
  · exact absurd rfl some_digit
  · rfl

theorem readFraction_text {fraction : List Char} (all : ∀ c ∈ fraction, c.isDigit)
    (ends : Text.Avoids Char.isDigit rest) (unpointed : Text.Avoids (· = '.') rest) :
    readFraction (Numeral.fractionText fraction ++ rest) = some (fraction, rest) := by
  cases fraction with
  | nil =>
    change readFraction rest = some ([], rest)
    rw [readFraction]
    intro further begins
    simp [begins] at unpointed
  | cons c fraction => exact readDigits_digits all (List.cons_ne_nil _ _) ends

theorem readPower_text {e : Exponent} (some_digit : e.digits ≠ [])
    (all : ∀ c ∈ e.digits, c.isDigit) (ends : Text.Avoids Char.isDigit rest) :
    readPower ((if e.negative then '-' else '+') :: e.digits ++ rest) = some (e, rest) := by
  obtain ⟨negative, digits⟩ := e
  cases negative <;> simp [readPower, readDigits_digits all some_digit ends]

theorem readExponent_text {exponent : Option Exponent}
    (spelled : ∀ e ∈ exponent, e.digits ≠ [] ∧ ∀ c ∈ e.digits, c.isDigit)
    (ends : Text.Avoids Numeral.goesOn rest) :
    readExponent (Numeral.exponentText exponent ++ rest) = some (exponent, rest) := by
  cases exponent with
  | none =>
    rw [Numeral.exponentText, List.nil_append, readExponent]
    · intro further begins
      simp [begins, Numeral.goesOn] at ends
    · intro further begins
      simp [begins, Numeral.goesOn] at ends
  | some e =>
    obtain ⟨some_digit, all⟩ := spelled e rfl
    have power := readPower_text some_digit all (ends.mono fun c digit => by
      simp [Numeral.goesOn, digit])
    rw [Numeral.exponentText, List.cons_append, readExponent, power]
    rfl

theorem readNumeral_text {n : Numeral} (wellFormed : n.WellFormed)
    (ends : Text.Avoids Numeral.goesOn rest) : readNumeral (n.text ++ rest) = some (n, rest) := by
  obtain ⟨negative, whole, fraction, exponent⟩ := n
  have after_fraction : Text.Avoids (fun c => c.isDigit || c = '.')
      (Numeral.exponentText exponent ++ rest) := by
    cases exponent with
    | none => exact ends.mono fun c begun => by simp_all [Numeral.goesOn]
    | some e => simp [Numeral.exponentText]
  have after_whole : Text.Avoids Char.isDigit
      (Numeral.fractionText fraction ++ (Numeral.exponentText exponent ++ rest)) := by
    cases fraction with
    | nil => exact after_fraction.mono fun c begun => by simp [begun]
    | cons c fraction => simp [Numeral.fractionText]
  have wholes := readWhole_digits wellFormed.whole wellFormed.whole_ne_nil wellFormed.leading
    after_whole
  have fractions := readFraction_text wellFormed.fraction
    (after_fraction.mono fun c begun => by simp [begun])
    (after_fraction.mono fun c begun => by simp_all)
  have exponents := readExponent_text wellFormed.exponent ends
  cases negative with
  | true => simp [readNumeral, Numeral.text, Numeral.sign, wholes, fractions, exponents]
  | false =>
    cases whole with
    | nil => exact absurd rfl wellFormed.whole_ne_nil
    | cons c whole =>
      have unsigned : c ≠ '-' := by
        rintro rfl
        exact absurd (wellFormed.whole '-' (by simp)) (by decide)
      rw [List.cons_append] at wholes
      simp [readNumeral, Numeral.text, Numeral.sign, unsigned, wholes, fractions, exponents]

end Json
end HotkeyScript
