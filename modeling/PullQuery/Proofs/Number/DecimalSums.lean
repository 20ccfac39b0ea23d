import PullQuery.Number.Decimal
import Mathlib.Algebra.Order.Field.Basic
import Mathlib.Algebra.Order.Field.Rat
import Mathlib.Tactic.FieldSimp
import Mathlib.Tactic.Linarith
import Mathlib.Tactic.NormNum
import Mathlib.Tactic.Ring

/-! When the sum of two decimals does not fit: exactly if its exact value is at least half a unit below
the capacity, since from there on it rounds up to the capacity. -/
namespace PullQuery.Number.Decimal

def value (d : Decimal) : ℚ := d.scaledTo d.scale / 10 ^ d.scale

private theorem exists_half_capacity : ∃ half, 0 < half ∧ capacity = 2 * half :=
  ⟨0x800000000000000000000000, by decide, by decide⟩

/-- A half is rounded up below the capacity because the last number that fits is odd. -/
theorem capacity_le_roundDropped {n dropped : Nat} :
    capacity ≤ roundDropped n dropped ↔ (2 * capacity - 1) * 10 ^ dropped ≤ 2 * n := by
  obtain ⟨half, positive, twice⟩ := exists_half_capacity
  have split := Nat.div_add_mod n (10 ^ dropped)
  have below : n % 10 ^ dropped < 10 ^ dropped := Nat.mod_lt _ (by positivity)
  rw [roundDropped, twice]
  simp only [Nat.pow_eq]
  generalize n / 10 ^ dropped = quotient at split ⊢
  generalize n % 10 ^ dropped = rest at split below ⊢
  generalize 10 ^ dropped = unit at split below ⊢
  have border : (2 * (2 * half) - 1) * unit + unit = 2 * (unit * (2 * half)) := by
    rw [← Nat.succ_mul, Nat.succ_eq_add_one, Nat.sub_add_cancel (by omega)]
    ring
  obtain low | last | high :
      quotient + 2 ≤ 2 * half ∨ quotient + 1 = 2 * half ∨ 2 * half ≤ quotient := by omega
  · have bound : unit * (quotient + 2) ≤ unit * (2 * half) := Nat.mul_le_mul_left _ low
    rw [Nat.mul_add] at bound
    split <;> omega
  · have next : unit * quotient + unit = unit * (2 * half) := by rw [← last, Nat.mul_succ]
    split <;> omega
  · have bound : unit * (2 * half) ≤ unit * quotient := Nat.mul_le_mul_left _ high
    split <;> omega

theorem fit?_eq_none {n scale : Nat} :
    fit? n scale = none ↔ (2 * capacity - 1) * 10 ^ scale ≤ 2 * n := by
  rw [fit?]
  split
  · rename_i small
    have unit : 1 ≤ 10 ^ scale := Nat.one_le_pow _ _ (by decide)
    have bound : (2 * capacity - 1) * 1 ≤ (2 * capacity - 1) * 10 ^ scale :=
      Nat.mul_le_mul_left _ unit
    simp only [capacity] at small bound ⊢
    simp only [reduceCtorEq, false_iff]
    omega
  · rename_i large
    have rounded (dropped : Nat) : n / Nat.pow 10 dropped ≤ roundDropped n dropped := by
      rw [roundDropped]
      split <;> simp
    rw [List.findSome?_eq_none_iff]
    constructor
    · intro none
      -- The fewest decimals are left when all are dropped, and that is the loosest of the bounds.
      cases scale with
      | zero =>
        simp only [capacity] at large ⊢
        omega
      | succ steps =>
        have last := none steps (by simp)
        apply capacity_le_roundDropped.mp
        by_contra less
        have fits : n / Nat.pow 10 (steps + 1) < capacity ∧ roundDropped n (steps + 1) < capacity := by
          have := rounded (steps + 1)
          omega
        simp only [if_pos fits, reduceCtorEq] at last
    · intro most index inside
      have smaller : 10 ^ (index + 1) ≤ 10 ^ scale :=
        Nat.pow_le_pow_right (by decide) (List.mem_range.mp inside)
      have reached : capacity ≤ roundDropped n (index + 1) :=
        capacity_le_roundDropped.mpr ((Nat.mul_le_mul_left _ smaller).trans most)
      simp only [ite_eq_right_iff, reduceCtorEq, imp_false]
      omega

private theorem scaledTo_eq {d : Decimal} {scale : Nat} (within : d.scale ≤ scale) :
    (d.scaledTo scale : ℚ) = d.value * 10 ^ scale := by
  have split : (10 : ℚ) ^ scale = 10 ^ (scale - d.scale) * 10 ^ d.scale := by
    rw [← pow_add, Nat.sub_add_cancel within]
  rw [value, scaledTo, scaledTo, split, Nat.sub_self]
  cases d.negative
  · simp
    field_simp
  · simp
    field_simp

private theorem value_of_mantissa_eq_zero {d : Decimal} (zero : d.mantissa = 0) : d.value = 0 := by
  rw [value, scaledTo, zero]
  cases d.negative <;> simp

theorem value_negate (d : Decimal) : d.negate.value = -d.value := by
  rw [value, value, negate, scaledTo, scaledTo]
  cases d.negative <;> simp [neg_div]

/-- A decimal that fits is more than half a unit below the capacity. -/
theorem abs_value_lt {d : Decimal} (fits : d.mantissa < capacity) :
    |d.value| < capacity - 1 / 2 := by
  have unit : (1 : ℚ) ≤ 10 ^ d.scale := one_le_pow₀ (by norm_num)
  have magnitude : |d.value| = d.mantissa / 10 ^ d.scale := by
    rw [value, scaledTo, abs_div, abs_of_pos (by positivity : (0 : ℚ) < 10 ^ d.scale)]
    cases d.negative <;> simp
  have whole : (d.mantissa : ℚ) + 1 ≤ capacity := by exact_mod_cast fits
  have less : (d.mantissa : ℚ) / 10 ^ d.scale ≤ d.mantissa := div_le_self (by positivity) unit
  rw [magnitude]
  linarith

theorem add?_eq_none {a b : Decimal} (left : a.mantissa < capacity) (right : b.mantissa < capacity) :
    a.add? b = none ↔ (capacity : ℚ) - 1 / 2 ≤ |a.value + b.value| := by
  rw [add?]
  split
  · rename_i zero
    rw [value_of_mantissa_eq_zero zero, zero_add]
    simp only [reduceCtorEq, false_iff, not_le]
    exact abs_value_lt right
  · split
    · rename_i zero
      rw [value_of_mantissa_eq_zero zero, add_zero]
      simp only [reduceCtorEq, false_iff, not_le]
      exact abs_value_lt left
    · simp only [Option.map_eq_none_iff, fit?_eq_none]
      generalize sized : max a.scale b.scale = scale
      have sum : ((a.scaledTo scale + b.scaledTo scale : Int) : ℚ) =
          (a.value + b.value) * 10 ^ scale := by
        push_cast
        rw [scaledTo_eq (by omega), scaledTo_eq (by omega)]
        ring
      have unit : (0 : ℚ) < 10 ^ scale := by positivity
      have magnitude : ((a.scaledTo scale + b.scaledTo scale).natAbs : ℚ) =
          |a.value + b.value| * 10 ^ scale := by
        rw [Nat.cast_natAbs, Int.cast_abs, sum, abs_mul, abs_of_pos unit]
      have positive : 1 ≤ 2 * capacity := by decide
      rw [← @Nat.cast_le ℚ, Nat.cast_mul, Nat.cast_mul, Nat.cast_pow, Nat.cast_sub positive, magnitude]
      push_cast
      constructor
      · intro most
        have scaled : ((capacity : ℚ) - 1 / 2) * 10 ^ scale ≤ |a.value + b.value| * 10 ^ scale := by
          linarith
        exact le_of_mul_le_mul_right scaled unit
      · intro most
        have scaled := mul_le_mul_of_nonneg_right most unit.le
        linarith

private theorem halve_lt {steps mantissa moved : Nat} (fits : mantissa < capacity) :
    (halve steps mantissa moved).1 < capacity := by
  induction steps generalizing mantissa moved with
  | zero => exact fits
  | succ steps ih =>
    rw [halve]
    split
    · exact ih (by omega)
    · split
      · rename_i small
        exact ih small
      · exact ih (by omega)

private theorem double_lt {steps mantissa moved : Nat} (fits : mantissa < capacity) :
    (double steps mantissa moved).1 < capacity := by
  induction steps generalizing mantissa moved with
  | zero => exact fits
  | succ steps ih =>
    rw [double]
    split
    · exact ih (by omega)
    · exact ih (by omega)

theorem dropDigit_le (mantissa : Nat) : dropDigit mantissa ≤ mantissa := by
  rw [dropDigit]
  split <;> omega

private theorem dropDigits_le (steps mantissa : Nat) : dropDigits steps mantissa ≤ mantissa := by
  induction steps generalizing mantissa with
  | zero => exact Nat.le_refl _
  | succ steps ih =>
    rw [dropDigits]
    split
    · exact Nat.zero_le _
    · exact (ih _).trans (dropDigit_le mantissa)

private theorem shorten_le (mantissa scale : Nat) : (shorten mantissa scale).1 ≤ mantissa := by
  induction scale generalizing mantissa with
  | zero => exact Nat.le_refl _
  | succ scale ih =>
    rw [shorten]
    split
    · exact (ih _).trans (dropDigit_le mantissa)
    · exact Nat.le_refl _

private theorem stripZeros_le (mantissa scale : Nat) :
    (stripZeros mantissa scale).1 ≤ mantissa := by
  induction scale generalizing mantissa with
  | zero => exact Nat.le_refl _
  | succ scale ih =>
    rw [stripZeros]
    split
    · exact (ih _).trans (Nat.div_le_self _ _)
    · exact Nat.le_refl _

private theorem mantissa_of_finite {x : Float} {negative : Bool} {mantissa : Nat} {exponent : Int}
    (read : Binary64.ofFloat x = .finite negative mantissa exponent) : mantissa < capacity := by
  have fraction : x.toBits.toNat % Binary64.hiddenBit < Binary64.hiddenBit :=
    Nat.mod_lt _ (by decide)
  have room : Binary64.hiddenBit + Binary64.hiddenBit < capacity := by decide
  simp only [Binary64.ofFloat] at read
  split at read
  · split at read <;> simp at read
  · split at read
    · obtain ⟨-, rfl, -⟩ := Binary64.finite.inj read
      omega
    · obtain ⟨-, rfl, -⟩ := Binary64.finite.inj read
      omega

theorem mantissa_of_ofFloat? {x : Float} {d : Decimal} (read : ofFloat? x = some d) :
    d.mantissa < capacity := by
  unfold ofFloat? at read
  split at read
  · obtain rfl := Option.some.inj read
    exact (by decide : 0 < capacity)
  · rename_i negative mantissa exponent _ finite
    have fits := mantissa_of_finite finite
    dsimp only at read
    generalize converted : (if exponent < 0 then _ else _ : Nat × Int) = parts at read
    have small : parts.1 < capacity := by
      split at converted <;> obtain rfl := converted
      · exact halve_lt fits
      · exact double_lt fits
    split at read
    · split at read
      · rename_i within
        obtain rfl := Option.some.inj read
        exact within
      · simp at read
    · obtain rfl := Option.some.inj read
      apply Nat.lt_of_le_of_lt _ small
      exact (stripZeros_le _ _).trans ((shorten_le _ _).trans (dropDigits_le _ _))
  · simp at read

end PullQuery.Number.Decimal
