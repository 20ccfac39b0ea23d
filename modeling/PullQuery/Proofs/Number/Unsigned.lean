import PullQuery.Number.Binary64
import PullQuery.Number.Reading
import Mathlib

/-! Decimals that are read as floats. Each is a number without a minus sign, however many digits it
has: one that is too large is infinite, one that is too small is zero. -/
namespace PullQuery.Number
open Float.Model Float.Model.UnpackedFloat

/-- A number without a minus sign, which may be infinite. -/
def IsUnsigned : UnpackedFloat → Prop
  | .notANumber => False
  | .infinity sign | .zero sign | .finite sign _ _ _ => sign = .positive

private theorem isUnsigned_roundWithAccuracy (mantissa : Nat) (exponent : Int)
    (accuracy : Accuracy) :
    IsUnsigned (roundWithAccuracy .binary64 .positive mantissa exponent accuracy) := by
  unfold roundWithAccuracy
  dsimp only
  split <;> rfl

section Bits
variable {format : Format}

theorem isUnsigned_unpack {exponent : BitVec format.exponentBits}
    {mantissa : BitVec format.mantissaBitsWithoutImplicit}
    (number : exponent = -1#_ → mantissa = 0#_) :
    IsUnsigned (UnpackedFloat.unpack format (packComponents format .positive exponent mantissa)) := by
  have sign : Sign.ofBitVec Sign.positive.toBitVec = .positive := rfl
  unfold UnpackedFloat.unpack
  simp only [unpackMantissa_packComponents, unpackExponent_packComponents,
    unpackSign_packComponents, sign]
  split
  · rename_i largest
    rw [if_pos (number largest)]
    rfl
  · split
    · split <;> rfl
    · rfl

theorem IsUnsigned.unpack_pack {x : UnpackedFloat} (unsigned : IsUnsigned x) :
    IsUnsigned (UnpackedFloat.unpack format (UnpackedFloat.pack format x)) := by
  unfold UnpackedFloat.pack
  split
  · exact unsigned.elim
  · obtain rfl := unsigned
    exact isUnsigned_unpack fun _ => rfl
  · obtain rfl := unsigned
    exact isUnsigned_unpack fun _ => rfl
  · obtain rfl := unsigned
    dsimp only
    split
    · exact isUnsigned_unpack fun _ => rfl
    · rename_i below
      split
      · -- The largest exponent is kept for what is no finite number.
        refine isUnsigned_unpack fun largest => ?_
        have bits := congrArg BitVec.toNat largest
        simp only [BitVec.toNat_ofNat, BitVec.neg_one_eq_allOnes, BitVec.toNat_allOnes] at bits
        rw [Nat.mod_eq_of_lt (by omega)] at bits
        omega
      · refine isUnsigned_unpack fun largest => ?_
        have bits := congrArg BitVec.toNat largest
        have some := Nat.one_lt_two_pow (Nat.ne_of_gt format.he)
        simp only [BitVec.toNat_ofNat, BitVec.neg_one_eq_allOnes, BitVec.toNat_allOnes,
          Nat.zero_mod] at bits
        omega

end Bits

private theorem isUnsigned_normalize (n : Nat) (exponent : Int) :
    IsUnsigned (UnpackedFloat.normalize .binary64 n exponent .positive) := by
  unfold UnpackedFloat.normalize
  split
  · rename_i below
    have negative := Int.compare_eq_lt.mp below
    omega
  · rfl
  · exact isUnsigned_roundWithAccuracy _ _ _

private theorem isUnsigned_toFloat (n : UInt64) : IsUnsigned n.toFloat.toModel.unpack :=
  (isUnsigned_normalize n.toNat 0).unpack_pack

section Scale
variable {x : UnpackedFloat} (unsigned : IsUnsigned x) {mantissa : Nat} {exponent : Int}
  (positive : 0 < mantissa)
include unsigned

theorem IsUnsigned.mul :
    IsUnsigned (UnpackedFloat.mul .binary64 x (.finite .positive mantissa exponent positive)) := by
  cases x with
  | notANumber => exact unsigned
  | infinity sign | zero sign =>
    obtain rfl : sign = .positive := unsigned
    rfl
  | finite sign m e p =>
    obtain rfl : sign = .positive := unsigned
    exact isUnsigned_roundWithAccuracy _ _ _

private theorem IsUnsigned.div :
    IsUnsigned (UnpackedFloat.div .binary64 x (.finite .positive mantissa exponent positive)) := by
  cases x with
  | notANumber => exact unsigned
  | infinity sign | zero sign =>
    obtain rfl : sign = .positive := unsigned
    rfl
  | finite sign m e p =>
    obtain rfl : sign = .positive := unsigned
    exact isUnsigned_roundWithAccuracy _ _ _

end Scale

def isPositive : UnpackedFloat → Bool
  | .finite .positive _ _ _ => true
  | _ => false

private theorem isPositive_powerOfTen {e : Nat}
    (small : e < Float.exactlyRepresentablePowersOfTen.size) :
    isPositive Float.exactlyRepresentablePowersOfTen[e].toModel.unpack = true := by
  have all : Float.exactlyRepresentablePowersOfTen.toList.all (isPositive ·.toModel.unpack) = true := by
    decide
  exact List.all_eq_true.mp all _ (Array.getElem_mem_toList small)

theorem exists_of_isPositive {x : UnpackedFloat} (positive : isPositive x = true) :
    ∃ mantissa exponent above, x = .finite .positive mantissa exponent above := by
  unfold isPositive at positive
  split at positive
  · exact ⟨_, _, _, rfl⟩
  · simp at positive

private theorem isUnsigned_scientific (digits : Nat) (exponent : Int) :
    IsUnsigned (UnpackedFloat.ofScientific .binary64 digits exponent) := by
  unfold UnpackedFloat.ofScientific
  split
  · rfl
  · split
    · rfl
    · split
      · rfl
      · split <;> exact isUnsigned_roundWithAccuracy _ _ _

private theorem isUnsigned_ofScientific (digits : Nat) (negative : Bool) (exponent : Nat) :
    IsUnsigned (Float.ofScientific digits negative exponent).toModel.unpack := by
  unfold Float.ofScientific
  split
  · -- The digits and the power of ten are exact, and their quotient or product is rounded once.
    rename_i small
    have listed : exponent < Float.exactlyRepresentablePowersOfTen.size :=
      Nat.lt_succ_of_le small.2
    obtain ⟨mantissa, scale, above, value⟩ := exists_of_isPositive (isPositive_powerOfTen listed)
    have number := isUnsigned_toFloat digits.toUInt64
    dsimp only
    split
    · refine IsUnsigned.unpack_pack ?_
      rw [value]
      exact number.div above
    · refine IsUnsigned.unpack_pack ?_
      rw [value]
      exact number.mul above
  · exact (isUnsigned_scientific _ _).unpack_pack

theorem isUnsigned_scaledFloat (digits : Nat) (exponent : Int) :
    IsUnsigned (scaledFloat digits exponent).toModel.unpack := by
  unfold scaledFloat
  dsimp only
  split
  · exact isUnsigned_ofScientific 0 false 0
  · split
    · exact (show IsUnsigned (.infinity .positive) from rfl)
    · exact isUnsigned_ofScientific _ _ _

private theorem IsUnsigned.nonnegative {x : UnpackedFloat} (unsigned : IsUnsigned x) :
    x.isNaN = false ∧ (UnpackedFloat.zero .positive).le x = true := by
  cases x with
  | notANumber => exact unsigned.elim
  | infinity sign | zero sign | finite sign =>
    obtain rfl : sign = .positive := unsigned
    exact ⟨rfl, rfl⟩

theorem decimalFloat_nonnegative (whole fraction : List Char) :
    (decimalFloat whole fraction).isNaN = false ∧ 0 ≤ decimalFloat whole fraction := by
  obtain ⟨number, above⟩ := (isUnsigned_scaledFloat (digitsValue (whole ++ fraction))
    (-fraction.length)).nonnegative
  exact ⟨number, decide_eq_true above⟩

theorem IsUnsigned.toNat_lt {bits : BitVec Format.binary64.numBits}
    (unsigned : IsUnsigned (UnpackedFloat.unpack .binary64 bits)) :
    bits.toNat < 0x8000000000000000 := by
  have sign : Sign.ofBitVec (unpackSign bits) = .positive := by
    unfold UnpackedFloat.unpack at unsigned
    dsimp only at unsigned
    split at unsigned
    · split at unsigned
      · exact unsigned
      · exact unsigned.elim
    · split at unsigned
      · split at unsigned <;> exact unsigned
      · exact unsigned
  have first : unpackSign bits = 0#1 := by
    unfold Sign.ofBitVec at sign
    split at sign
    · assumption
    · simp at sign
  have digit := congrArg BitVec.toNat first
  have bound : bits.toNat < 2 ^ 64 := bits.isLt
  simp [unpackSign, Nat.shiftRight_eq_div_pow] at digit
  omega

theorem ofFloat_cases {x : Float} (unsigned : IsUnsigned x.toModel.unpack) :
    Binary64.ofFloat x = .nan ∨ Binary64.ofFloat x = .infinite false ∨
      ∃ mantissa exponent, Binary64.ofFloat x = .finite false mantissa exponent := by
  have bits : ¬ 0x8000000000000000 ≤ x.toBits.toNat := Nat.not_le.mpr unsigned.toNat_lt
  unfold Binary64.ofFloat
  simp only [decide_eq_false bits]
  grind

private theorem ofIntClamp_nonnegative {n : Int} (nonnegative : 0 ≤ n) :
    0 ≤ (Int64.ofIntClamp n).toInt := by
  have low : Int64.minValue.toInt ≤ n := Int.le_trans (by decide) nonnegative
  by_cases fits : n ≤ Int64.maxValue.toInt
  · rwa [Int64.toInt_ofIntClamp low fits]
  · rw [Int64.ofIntClamp, dif_pos low, dif_neg fits]
    decide

/-- The word nearest to an unsigned number is not below zero. -/
theorem nearestWord_nonnegative {x : Float} (unsigned : IsUnsigned x.toModel.unpack) :
    0 ≤ (nearestWord x).toInt := by
  unfold nearestWord
  rcases ofFloat_cases unsigned with nan | infinite | ⟨mantissa, exponent, finite⟩
  · rw [nan]
    decide
  · rw [infinite]
    decide
  · rw [finite]
    exact ofIntClamp_nonnegative (Int.natCast_nonneg _)

end PullQuery.Number
