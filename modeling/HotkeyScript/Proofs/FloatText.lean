import HotkeyScript.Binary64
import HotkeyScript.Proofs.NumberText
import Mathlib.Data.List.DropRight
namespace HotkeyScript.Binary64

theorem quanta_pos {x : Binary64} (nonzero : x.isZero = false) : 0 < x.quanta := by
  have magnitude : x.magnitude ≠ 0 := by simpa [isZero] using nonzero
  refine Nat.mul_pos ?_ (Nat.pow_pos (by decide))
  rw [significand]
  split
  · next denormal =>
    rw [fractionField, Nat.mod_eq_of_lt (Nat.lt_of_div_eq_zero (by decide) denormal)]
    omega
  · exact Nat.add_pos_left (by decide) _

theorem quantaPerUnit_pos : 0 < quantaPerUnit := by
  unfold quantaPerUnit
  generalize 1074 = power
  exact Nat.pow_pos (by decide)

theorem ten_pow_le {n k : Nat} (positive : 0 < n) (fits : k < (Nat.toDigits 10 n).length) :
    Nat.pow 10 k ≤ n := by
  cases k with
  | zero => exact positive
  | succ k =>
    have more := Nat.length_toDigits_le_iff (b := 10) (n := n) (k := k + 1) (by decide) (by omega)
    exact Nat.le_of_not_lt fun below => absurd (more.mpr below) (by omega)

-- The leading power of ten is not above the number.
theorem ten_pow_mul_le {x : Binary64} (nonzero : x.isZero = false) {power : Int}
    (fine : power ≤ x.leadingPower) :
    Nat.pow 10 power.toNat * quantaPerUnit ≤ x.quanta * Nat.pow 10 (-power).toNat := by
  rw [leadingPower] at fine
  split at fine
  · next whole =>
    have units : 0 < x.quanta / quantaPerUnit := Nat.div_pos whole quantaPerUnit_pos
    have some_digit := List.length_pos_of_ne_nil
      (Nat.toDigits_ne_nil (n := x.quanta / quantaPerUnit) (b := 10))
    have power_le : Nat.pow 10 power.toNat ≤ x.quanta / quantaPerUnit :=
      ten_pow_le units (by omega)
    calc Nat.pow 10 power.toNat * quantaPerUnit
        ≤ x.quanta := (Nat.le_div_iff_mul_le quantaPerUnit_pos).mp power_le
      _ ≤ x.quanta * Nat.pow 10 (-power).toNat :=
          Nat.le_mul_of_pos_right _ (Nat.pow_pos (by decide))
  · next small =>
    have places : ((Nat.toDigits 10 ((quantaPerUnit - 1) / x.quanta)).length) ≤ (-power).toNat := by
      omega
    have some_digit := List.length_pos_of_ne_nil
      (Nat.toDigits_ne_nil (n := (quantaPerUnit - 1) / x.quanta) (b := 10))
    have below := (Nat.length_toDigits_le_iff (by decide) (by omega)).mp places
    have units : quantaPerUnit - 1 < x.quanta * Nat.pow 10 (-power).toNat :=
      (Nat.div_lt_iff_lt_mul (quanta_pos nonzero)).mp below |>.trans_eq (Nat.mul_comm _ _)
    have no_power : power.toNat = 0 := by omega
    rw [no_power, Nat.pow_eq, Nat.pow_zero, Nat.one_mul]
    omega

theorem gridUnit_pos (power : Int) : 0 < gridUnit power :=
  Nat.mul_pos (Nat.pow_pos (by decide)) (Nat.mul_pos (by decide) quantaPerUnit_pos)

theorem multipleBelow_pos {x : Binary64} (nonzero : x.isZero = false) {power : Int}
    (fine : power ≤ x.leadingPower) : 0 < x.multipleBelow power := by
  refine Nat.div_pos ?_ (gridUnit_pos power)
  have reached := ten_pow_mul_le nonzero fine
  calc gridUnit power = 4 * (Nat.pow 10 power.toNat * quantaPerUnit) := Nat.mul_left_comm _ _ _
    _ ≤ 4 * (x.quanta * Nat.pow 10 (-power).toNat) := Nat.mul_le_mul_left 4 reached
    _ = 4 * x.quanta * gridScale power := (Nat.mul_assoc _ _ _).symm

theorem nearestMultiple_pos {x : Binary64} (nonzero : x.isZero = false) (tie : Tie) {power : Int}
    (fine : power ≤ x.leadingPower) : 0 < x.nearestMultiple tie power := by
  have below := multipleBelow_pos nonzero fine
  simp only [nearestMultiple]
  split_ifs
  · exact below
  · omega
  · cases tie <;> simp only <;> omega

theorem multiple?_pos {x : Binary64} (nonzero : x.isZero = false) {tie : Tie} {power : Int}
    (fine : power ≤ x.leadingPower) {multiple : Nat}
    (found : x.multiple? tie power = some multiple) : 0 < multiple := by
  have below := multipleBelow_pos nonzero fine
  rw [multiple?] at found
  split at found
  · rw [← Option.some.inj found]
    exact nearestMultiple_pos nonzero tie fine
  · rwa [← Option.some.inj found]
  · rw [← Option.some.inj found]
    omega
  · cases found

structure Significant (digits : List Char) : Prop where
  digit : ∀ c ∈ digits, c.isDigit
  ne_nil : digits ≠ []
  head : digits.head? ≠ some '0'

theorem significant_withoutTrailingZeros {multiple : Nat} (positive : 0 < multiple) :
    Significant (withoutTrailingZeros (Nat.toDigits 10 multiple)) := by
  have head := Numeral.head_toDigits positive
  obtain ⟨zeros, parts⟩ := List.rdropWhile_prefix (· = '0') (Nat.toDigits 10 multiple)
  change withoutTrailingZeros (Nat.toDigits 10 multiple) ++ zeros = Nat.toDigits 10 multiple
    at parts
  have ne_nil : withoutTrailingZeros (Nat.toDigits 10 multiple) ≠ [] := by
    intro none_left
    have all := List.rdropWhile_eq_nil_iff.mp none_left
    cases spelled : Nat.toDigits 10 multiple with
    | nil => exact Nat.toDigits_ne_nil spelled
    | cons c rest =>
      rw [spelled] at head all
      exact head (by simpa using all c (by simp))
  refine ⟨fun c among => ?_, ne_nil, ?_⟩
  · exact Numeral.isDigit_of_mem_toDigits c (parts ▸ List.mem_append_left zeros among)
  · rwa [← parts, List.head?_append_of_ne_nil _ ne_nil] at head

theorem significant_decimation (tie : Tie) {x : Binary64} (nonzero : x.isZero = false) :
    Significant (x.decimation tie).digits := by
  refine significant_withoutTrailingZeros ?_
  generalize tried : List.findSome? _ _ = found
  cases found with
  | none =>
    dsimp only
    exact nearestMultiple_pos nonzero tie (by omega)
  | some result =>
    obtain ⟨power, among, named⟩ := List.exists_of_findSome?_eq_some tried
    obtain ⟨finer, _, rfl⟩ := List.mem_map.mp among
    obtain ⟨multiple, found, rfl⟩ := Option.map_eq_some_iff.mp named
    exact multiple?_pos nonzero (by omega) found

theorem Significant.positional {digits : List Char} (significant : Significant digits)
    (negative : Bool) (point : Int) : (Numeral.positional negative digits point).WellFormed := by
  obtain ⟨digit, ne_nil, head⟩ := significant
  rw [Numeral.positional]
  split
  · refine ⟨by simp, by simp, fun _ => rfl, fun c among => ?_, by simp⟩
    rcases List.mem_append.mp among with zero | own
    · rw [List.eq_of_mem_replicate zero]
      decide
    · exact digit c own
  · next inside =>
    have front : (digits.take point.toNat).head? = digits.head? := by
      rw [List.head?_take, if_neg (by omega)]
    have some_front : digits.take point.toNat ≠ [] := by
      simp only [ne_eq, List.take_eq_nil_iff, ne_nil, or_false]
      omega
    refine ⟨fun c among => ?_, by simp [some_front], fun zero => ?_,
      fun c among => digit c (List.mem_of_mem_drop among), by simp⟩
    · rcases List.mem_append.mp among with own | zero
      · exact digit c (List.mem_of_mem_take own)
      · rw [List.eq_of_mem_replicate zero]
        decide
    · rw [List.head?_append_of_ne_nil _ some_front, front] at zero
      exact absurd zero head

theorem Significant.scientific {digits : List Char} (significant : Significant digits)
    (negative : Bool) (point : Int) : (Numeral.scientific negative digits point).WellFormed := by
  obtain ⟨digit, ne_nil, head⟩ := significant
  have front : (digits.take 1).head? = digits.head? := by
    rw [List.head?_take, if_neg (by decide)]
  exact {
    whole := fun c among => digit c (List.mem_of_mem_take among)
    whole_ne_nil := by simpa [Numeral.scientific] using ne_nil
    leading := fun zero => absurd (front ▸ zero) head
    fraction := fun c among => digit c (List.mem_of_mem_drop among)
    exponent := by
      intro e written
      rw [← Option.some.inj written]
      exact ⟨Nat.toDigits_ne_nil, Numeral.isDigit_of_mem_toDigits⟩ }

theorem wellFormed_withFraction {n : Numeral} (wellFormed : n.WellFormed) :
    (withFraction n).WellFormed := by
  rw [withFraction]
  split
  · exact { wellFormed with fraction := by simp }
  · exact wellFormed

theorem scriptNumeral_wellFormed (x : Binary64) : x.scriptNumeral.WellFormed := by
  rw [scriptNumeral]
  split
  · exact ⟨by simp, by simp, fun _ => rfl, by simp, by simp⟩
  · next nonzero =>
    have significant := significant_decimation .away (by simpa using nonzero)
    exact significant.positional _ _

theorem documentNumeral_wellFormed (x : Binary64) : x.documentNumeral.WellFormed := by
  rw [documentNumeral]
  split
  · exact ⟨by simp, by simp, fun _ => rfl, by simp, by simp⟩
  · next nonzero =>
    have significant := significant_decimation .even (by simpa using nonzero)
    simp only
    split
    · exact wellFormed_withFraction (significant.positional _ _)
    · exact significant.scientific _ _

end HotkeyScript.Binary64
