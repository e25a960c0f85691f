import HotkeyScript.Numeral
import HotkeyScript.Proofs.NumberText
namespace HotkeyScript.Decimal

theorem le_ofDigitChars (digits : List Char) (taken : Nat) :
    taken ≤ Nat.ofDigitChars 10 digits taken := by
  induction digits generalizing taken with
  | nil => exact Nat.le_refl _
  | cons c rest ih =>
    calc taken ≤ 10 * taken + (c.toNat - '0'.toNat) := by omega
      _ ≤ _ := ih _

theorem ofDigitChars_zeros (count : Nat) :
    Nat.ofDigitChars 10 (List.replicate count '0') 0 = 0 := by
  induction count with
  | zero => rfl
  | succ count ih => exact ih

-- Digits are read one by one where their value stays below the bound and, behind the point, their
-- number within the places.
theorem readUnsigned_digits {digits : List Char} (all : ∀ c ∈ digits, c.isDigit)
    {pointed seen : Bool} {mantissa places : Nat} {rest : List Char}
    (bounded : Nat.ofDigitChars 10 digits mantissa < mantissaBound)
    (room : places + (if pointed then digits.length else 1) ≤ greatestScale) :
    readUnsigned pointed seen mantissa places (digits ++ rest)
      = readUnsigned pointed (seen || !digits.isEmpty) (Nat.ofDigitChars 10 digits mantissa)
          (if pointed then places + digits.length else places) rest := by
  induction digits generalizing seen mantissa places with
  | nil => simp
  | cons c digits ih =>
    have taken : Nat.ofDigitChars 10 (c :: digits) mantissa
        = Nat.ofDigitChars 10 digits (10 * mantissa + digit c) := rfl
    rw [taken] at bounded ⊢
    have free : places ≠ greatestScale := by
      cases pointed <;> simp at room <;> omega
    have fits : 10 * mantissa + digit c < mantissaBound :=
      Nat.lt_of_le_of_lt (le_ofDigitChars digits _) bounded
    rw [List.cons_append, readUnsigned, if_neg free, if_pos (all c List.mem_cons_self)]
    simp only [if_pos fits]
    rw [ih (fun c among => all c (List.mem_cons_of_mem _ among)) bounded]
    · cases pointed <;> simp [Nat.add_comm, Nat.add_left_comm]
    · cases pointed <;> simp at room ⊢ <;> omega

theorem readUnsigned_text {whole fraction : List Char}
    (all : ∀ c ∈ whole ++ fraction, c.isDigit) (some_whole : whole ≠ [])
    (bounded : Nat.ofDigitChars 10 (whole ++ fraction) 0 < mantissaBound)
    (room : fraction.length ≤ greatestScale) :
    readUnsigned false false 0 0 (whole ++ Numeral.fractionText fraction)
      = some (Nat.ofDigitChars 10 (whole ++ fraction) 0, fraction.length) := by
  rw [Nat.ofDigitChars_append] at bounded ⊢
  have seen : (false || !whole.isEmpty) = true := by simpa using some_whole
  rw [readUnsigned_digits (fun c among => all c (List.mem_append_left _ among))
    (Nat.lt_of_le_of_lt (le_ofDigitChars fraction _) bounded) (Nat.succ_le_of_lt (by decide)), seen]
  cases fraction with
  | nil => rfl
  | cons c fraction =>
    change readUnsigned true true _ 0 (c :: fraction) = _
    rw [← List.append_nil (c :: fraction),
      readUnsigned_digits (fun c among => all c (List.mem_append_right _ (by simpa using among)))
        (by simpa using bounded) (by simpa using room)]
    simp [readUnsigned]

theorem isDigit_of_mem_paddedDigits (d : Decimal) : ∀ c ∈ d.paddedDigits, c.isDigit := by
  intro c among
  rcases List.mem_append.mp among with zero | own
  · rw [List.eq_of_mem_replicate zero]
    decide
  · exact Numeral.isDigit_of_mem_toDigits c own

theorem spelledWith_of_mem_text (d : Decimal) : ∀ c ∈ d.text, Numeral.spelledWith c := by
  have digit := isDigit_of_mem_paddedDigits d
  exact Numeral.spelledWith_of_mem_text (fun c own => digit c (List.mem_of_mem_take own))
    (fun c own => digit c (List.mem_of_mem_drop own)) (by simp [numeral])

theorem value_paddedDigits (d : Decimal) :
    Nat.ofDigitChars 10 d.paddedDigits 0 = d.mantissa := by
  simp only [paddedDigits, Nat.ofDigitChars_append, ofDigitChars_zeros,
    Nat.ofDigitChars_ten_toDigits]

theorem scale_lt_length (d : Decimal) : d.scale < d.paddedDigits.length := by
  simp only [paddedDigits, List.length_append, List.length_replicate]
  omega

-- What a text says digit by digit: the mantissa is the number that all of its digits make, the
-- scale the count of those behind the point.
inductive Spells (d : Decimal) : List Char → Prop where
  | digits {whole fraction : List Char} (all : ∀ c ∈ whole ++ fraction, c.isDigit)
      (some_whole : whole ≠ []) (mantissa : Numeral.digitsValue (whole ++ fraction) = d.mantissa)
      (scale : fraction.length = d.scale) :
      Spells d (Numeral.sign d.negative ++ whole ++ Numeral.fractionText fraction)

theorem spells_text (d : Decimal) : d.Spells d.text := by
  have longer := scale_lt_length d
  have parts : d.numeral.whole ++ d.numeral.fraction = d.paddedDigits := List.take_append_drop _ _
  have spelled : d.text
      = Numeral.sign d.negative ++ d.numeral.whole ++ Numeral.fractionText d.numeral.fraction := by
    simp [text, Numeral.text, numeral, Numeral.exponentText]
  rw [spelled]
  refine .digits (parts ▸ isDigit_of_mem_paddedDigits d) ?_ (parts ▸ value_paddedDigits d) ?_
  · refine List.ne_nil_of_length_pos ?_
    simp only [numeral, List.length_take]
    omega
  · simp only [numeral, List.length_drop]
    omega

def plain (d : Decimal) : Decimal := { d with negative := d.negative && d.mantissa != 0 }

theorem plain_eq_self {d : Decimal} (unsigned : d.mantissa = 0 → d.negative = false) :
    d.plain = d := by
  have sign : (d.negative && d.mantissa != 0) = d.negative := by
    by_cases zero : d.mantissa = 0
    · simp [zero, unsigned zero]
    · simp [zero]
  rw [plain, sign]

theorem unsigned_plain (d : Decimal) (zero : d.plain.mantissa = 0) : d.plain.negative = false := by
  have own : d.mantissa = 0 := zero
  simp [plain, own]

-- A text is read as the decimal that it spells: no digit of it is one too many, so none is rounded
-- away.
theorem Spells.readPlain {d : Decimal} {text : List Char} (spelled : d.Spells text) :
    readPlain text = some d.plain := by
  obtain @⟨whole, fraction, all, some_whole, mantissa, scale⟩ := spelled
  have bounded : Numeral.digitsValue (whole ++ fraction) < mantissaBound :=
    mantissa ▸ d.mantissa_lt
  have read := readUnsigned_text all some_whole bounded (scale ▸ d.scale_le)
  rw [← Numeral.digitsValue, mantissa, scale] at read
  have plain : ofParts? (d.negative && d.mantissa != 0) d.mantissa d.scale = some d.plain :=
    ofParts?_self d.plain
  cases negative : d.negative with
  | true => simpa [Decimal.readPlain, Numeral.sign, read, negative] using plain
  | false =>
    cases whole with
    | nil => exact absurd rfl some_whole
    | cons c further =>
      have digit := all c List.mem_cons_self
      have unsigned : c ≠ '-' ∧ c ≠ '+' := by
        constructor <;> rintro rfl <;> exact absurd digit (by decide)
      rw [List.cons_append] at read
      simpa [Decimal.readPlain, Numeral.sign, unsigned, read, negative] using plain

theorem Spells.ofText? {d : Decimal} {text : List Char} (spelled : d.Spells text) :
    ofText? text = some d.plain := by
  rw [Decimal.ofText?, spelled.readPlain]
  rfl

theorem ofText?_text (d : Decimal) : ofText? d.text = some d.plain := d.spells_text.ofText?

theorem Spells.negative_iff {d : Decimal} {text : List Char} (spelled : d.Spells text) :
    d.negative = true ↔ text.head? = some '-' := by
  obtain @⟨whole, fraction, all, some_whole, _, _⟩ := spelled
  obtain ⟨c, further, rfl⟩ := List.exists_cons_of_ne_nil some_whole
  have digit := all c List.mem_cons_self
  cases negative : d.negative with
  | true => simp [Numeral.sign]
  | false =>
    have unsigned : c ≠ '-' := by
      rintro rfl
      cases digit
    simp [Numeral.sign, unsigned]

theorem Spells.unique {d d' : Decimal} {text : List Char} (spelled : d.Spells text)
    (spelled' : d'.Spells text) : d = d' := by
  have read : d.plain = d'.plain :=
    Option.some.inj (spelled.readPlain.symm.trans spelled'.readPlain)
  have sign : d.negative = d'.negative := by
    rw [Bool.eq_iff_iff, spelled.negative_iff, spelled'.negative_iff]
  simp only [plain, mk.injEq] at read
  cases d
  cases d'
  simp_all

theorem text_injective : Function.Injective text := fun d d' same =>
  d.spells_text.unique (same ▸ d'.spells_text)

end HotkeyScript.Decimal
