import HotkeyScript.Binary64
import HotkeyScript.Proofs.FloatText
namespace HotkeyScript

namespace Binary64

theorem magnitude_ofMagnitude (negative : Bool) {magnitude : Nat} (small : magnitude < signBit) :
    (ofMagnitude negative magnitude).magnitude = magnitude := by
  have word : (UInt64.ofNat ((if negative then signBit else 0) + magnitude)).toNat
      = (if negative then signBit else 0) + magnitude := by
    rw [UInt64.toNat_ofNat', Nat.mod_eq_of_lt]
    rw [signBit] at small ⊢
    split <;> omega
  rw [ofMagnitude, Binary64.magnitude, word]
  split
  · rw [Nat.add_mod_left, Nat.mod_eq_of_lt small]
  · rw [Nat.zero_add, Nat.mod_eq_of_lt small]

theorem isFinite_ofMagnitude (negative : Bool) {x : Binary64} (finite : x.isFinite) :
    (ofMagnitude negative x.magnitude).isFinite := by
  have small : x.magnitude < signBit := Nat.mod_lt _ (by decide)
  rwa [isFinite, magnitude_ofMagnitude negative small]

theorem halfEven_le (num den : Nat) : halfEven num den ≤ num / den + 1 := by
  simp only [halfEven]
  split <;> omega

-- Rounding leaves a significand of 53 bits, or the power of two right after them.
theorem halfEven_shifted_le {quanta den levels : Nat}
    (bounded : quanta / den < Nat.pow 2 (levels + 53)) :
    (quanta / den).log2 - 52 ≤ levels ∧
      halfEven quanta (den * Nat.pow 2 ((quanta / den).log2 - 52)) ≤ 2 * hiddenBit := by
  have leading : (quanta / den).log2 < levels + 53 := by
    by_cases none_left : quanta / den = 0
    · simp [none_left]
    · exact (Nat.log2_lt none_left).mpr bounded
  refine ⟨by omega, Nat.le_trans (halfEven_le _ _) ?_⟩
  have below : quanta / den < 2 ^ ((quanta / den).log2 - 52 + 53) :=
    Nat.lt_of_lt_of_le Nat.lt_log2_self (Nat.pow_le_pow_right (by decide) (by omega))
  rw [← Nat.div_div_eq_div_mul, Nat.pow_eq]
  refine Nat.succ_le_of_lt (Nat.div_lt_of_lt_mul ?_)
  calc quanta / den < 2 ^ ((quanta / den).log2 - 52 + 53) := below
    _ = 2 ^ ((quanta / den).log2 - 52) * (2 * hiddenBit) := Nat.pow_add _ _ _

theorem magnitude_ofRatio_le (negative : Bool) {num den levels : Nat} (range : levels ≤ 2044)
    (bounded : num * quantaPerUnit / den < Nat.pow 2 (levels + 53)) :
    (ofRatio negative num den).magnitude ≤ (levels + 2) * hiddenBit := by
  obtain ⟨shift_le, rounded⟩ := halfEven_shifted_le bounded
  have total : min (((num * quantaPerUnit / den).log2 - 52) * hiddenBit +
      halfEven (num * quantaPerUnit) (den * Nat.pow 2 ((num * quantaPerUnit / den).log2 - 52)))
        infinityMagnitude ≤ (levels + 2) * hiddenBit := by
    rw [Nat.add_mul]
    exact Nat.le_trans (Nat.min_le_left _ _)
      (Nat.add_le_add (Nat.mul_le_mul_right hiddenBit shift_le) rounded)
  have most : (levels + 2) * hiddenBit < signBit :=
    Nat.lt_of_le_of_lt (Nat.mul_le_mul_right hiddenBit (Nat.add_le_add_right range 2)) (by decide)
  rw [ofRatio, magnitude_ofMagnitude negative (Nat.lt_of_le_of_lt total most)]
  exact total

theorem quanta_lt {x : Binary64} {levels : Nat} (bounded : x.magnitude ≤ levels * hiddenBit) :
    x.quanta < Nat.pow 2 (levels + 53) := by
  have field : x.exponentField ≤ levels := by
    rw [exponentField]
    exact Nat.div_le_of_le_mul (Nat.mul_comm levels hiddenBit ▸ bounded)
  have fraction : x.fractionField < hiddenBit := Nat.mod_lt _ (by decide)
  have double : 2 ^ 53 = 2 * hiddenBit := by decide
  have significand : x.significand < 2 ^ 53 := by
    rw [Binary64.significand, double]
    split <;> omega
  have scale : 2 ^ x.scale ≤ 2 ^ levels :=
    Nat.pow_le_pow_right (by decide) (Nat.le_trans (Nat.sub_le _ _) field)
  calc x.quanta < 2 ^ 53 * 2 ^ x.scale :=
        Nat.mul_lt_mul_of_pos_right significand (Nat.pow_pos (by decide))
    _ ≤ 2 ^ 53 * 2 ^ levels := Nat.mul_le_mul_left _ scale
    _ = 2 ^ (levels + 53) := by rw [← Nat.pow_add, Nat.add_comm]

theorem le_halfEven (num den : Nat) : num / den ≤ halfEven num den := by
  simp only [halfEven]
  split <;> omega

theorem le_quanta {x : Binary64} (levels : Nat) (bounded : (levels + 1) * hiddenBit ≤ x.magnitude) :
    hiddenBit * Nat.pow 2 levels ≤ x.quanta := by
  have field : levels + 1 ≤ x.exponentField := (Nat.le_div_iff_mul_le (by decide)).mpr bounded
  have significand : hiddenBit ≤ x.significand := by
    rw [Binary64.significand, if_neg (by omega)]
    exact Nat.le_add_right _ _
  have scale : levels ≤ x.scale := Nat.le_sub_one_of_lt field
  exact Nat.mul_le_mul significand (Nat.pow_le_pow_right (by decide) scale)

theorem hiddenBit_le_halfEven {quanta den : Nat} (large : 52 ≤ (quanta / den).log2) :
    hiddenBit ≤ halfEven quanta (den * Nat.pow 2 ((quanta / den).log2 - 52)) := by
  refine Nat.le_trans ?_ (le_halfEven _ _)
  have positive : quanta / den ≠ 0 := fun zero => by simp [zero] at large
  rw [← Nat.div_div_eq_div_mul, Nat.pow_eq, Nat.le_div_iff_mul_le (Nat.pow_pos (by decide))]
  calc 2 ^ 52 * 2 ^ ((quanta / den).log2 - 52)
      = 2 ^ (quanta / den).log2 := by rw [← Nat.pow_add, Nat.add_sub_cancel' large]
    _ ≤ quanta / den := Nat.log2_self_le positive

theorem le_log2_quantaPerUnit {n : Nat} (positive : 0 < n) : 1074 ≤ (n * quantaPerUnit).log2 := by
  have units : quantaPerUnit ≤ n * quantaPerUnit := Nat.le_mul_of_pos_left _ positive
  have own : quantaPerUnit.log2 = 1074 := by decide +kernel
  rw [← own, Nat.le_log2 (Nat.ne_of_gt (Nat.mul_pos positive quantaPerUnit_pos))]
  exact Nat.le_trans (Nat.log2_self_le (Nat.ne_of_gt quantaPerUnit_pos)) units

theorem quantaPerUnit_le_ofNat {n : Nat} (positive : 0 < n) : quantaPerUnit ≤ (ofNat n).quanta := by
  -- The power stays a variable, so that nothing computes it.
  obtain ⟨levels, own, unit⟩ : ∃ levels, levels = 1074 - 52 ∧
    quantaPerUnit = hiddenBit * Nat.pow 2 levels := ⟨_, rfl, by decide +kernel⟩
  rw [unit]
  refine le_quanta levels ?_
  have leading : 1074 ≤ (n * quantaPerUnit / 1).log2 := by
    rw [Nat.div_one]
    exact le_log2_quantaPerUnit positive
  have rounded := hiddenBit_le_halfEven (Nat.le_trans (by decide) leading)
  have shifted := Nat.mul_le_mul_right hiddenBit (Nat.sub_le_sub_right leading 52)
  rw [ofNat, ofRatio, magnitude_ofMagnitude false
    (Nat.lt_of_le_of_lt (Nat.min_le_right _ _) (by decide))]
  refine Nat.le_min.mpr ⟨?_, by rw [own]; decide⟩
  rw [own, Nat.succ_mul]
  exact Nat.add_le_add shifted rounded

theorem magnitude_dividedBy_le {x : Binary64} {levels k : Nat} (range : levels ≤ 2044)
    (bounded : x.magnitude ≤ levels * hiddenBit) :
    (x.dividedBy (tenPower k)).magnitude ≤ (levels + 2) * hiddenBit := by
  refine magnitude_ofRatio_le _ range (Nat.lt_of_le_of_lt ?_ (quanta_lt bounded))
  refine Nat.div_le_of_le_mul ?_
  rw [Nat.mul_comm]
  exact Nat.mul_le_mul_right _ (quantaPerUnit_le_ofNat (Nat.pow_pos (by decide)))

theorem isFinite_dividedByTenPower {x : Binary64} {levels : Nat} (range : levels ≤ 2042)
    (bounded : x.magnitude ≤ levels * hiddenBit) (k : Nat) : (x.dividedByTenPower k).isFinite := by
  have finite {y : Binary64} (within : y.magnitude ≤ (levels + 4) * hiddenBit) : y.isFinite := by
    have most := Nat.mul_le_mul_right hiddenBit (Nat.add_le_add_right range 4)
    exact decide_eq_true (Nat.lt_of_le_of_lt (Nat.le_trans within most) (by decide))
  have once (k : Nat) : (x.dividedBy (tenPower k)).magnitude ≤ (levels + 2) * hiddenBit :=
    magnitude_dividedBy_le (Nat.le_trans range (by decide)) bounded
  have twice (k : Nat) : ((x.dividedBy (tenPower greatestTenPower)).dividedBy
      (tenPower k)).magnitude ≤ (levels + 4) * hiddenBit :=
    magnitude_dividedBy_le (Nat.add_le_add_right range 2) (once greatestTenPower)
  simp only [dividedByTenPower]
  split_ifs
  · exact finite (Nat.le_trans (once k) (Nat.mul_le_mul_right _ (by omega)))
  · exact finite (twice _)
  · exact finite (twice _)

theorem isFinite_timesTenPower {x size : Binary64} {k : Nat}
    (scaled : x.timesTenPower? k = some size) : size.isFinite := by
  rw [timesTenPower?] at scaled
  split at scaled
  · obtain ⟨finite, own⟩ := Option.ite_none_right_eq_some.mp scaled
    exact Option.some.inj own ▸ finite
  · obtain ⟨zero, own⟩ := Option.ite_none_right_eq_some.mp scaled
    have none_left : x.magnitude = 0 := of_decide_eq_true zero
    rw [← Option.some.inj own, isFinite, none_left]
    decide

end Binary64

namespace Numeral

open Binary64

theorem significand_lt {taken : Nat} (fits : taken < wordBound) (digits : List Char) :
    (significand taken digits).1 < wordBound := by
  induction digits generalizing taken with
  | nil => exact fits
  | cons c rest ih =>
    simp only [significand]
    split
    · next longer => exact ih longer
    · exact fits

theorem magnitude_ofNat_le {digits : Nat} (fits : digits < wordBound) :
    (Binary64.ofNat digits).magnitude ≤ 1087 * hiddenBit := by
  refine magnitude_ofRatio_le false (show 1085 ≤ 2044 by decide) ?_
  have word : Nat.pow 2 (1085 + 53) = wordBound * quantaPerUnit := by decide +kernel
  rw [Nat.div_one, word]
  exact Nat.mul_lt_mul_of_pos_right fits quantaPerUnit_pos

theorem isFinite_of_binary64? {n : Numeral} {value : Binary64}
    (read : n.binary64? = some value) : value.isFinite := by
  obtain ⟨size, sized, rfl⟩ := Option.map_eq_some_iff.mp read
  refine isFinite_ofMagnitude _ ?_
  have start : (Binary64.ofNat n.scaled.1).magnitude ≤ 1087 * hiddenBit :=
    magnitude_ofNat_le (significand_lt (significand_lt (by decide) _) _)
  split at sized
  · exact isFinite_timesTenPower sized
  · rw [← Option.some.inj sized]
    exact isFinite_dividedByTenPower (by decide) start _

end Numeral
end HotkeyScript
