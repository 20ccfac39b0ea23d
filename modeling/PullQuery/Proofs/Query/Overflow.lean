import PullQuery.Filter.Saved
import PullQuery.Proofs.Number.DecimalSums
import PullQuery.Proofs.Query.Faults

/-! When an evaluation is given up because a sum overflows. Only sums that are formed in decimal can
overflow, and they do exactly if the exact result is no number of 96 bits when it is rounded. -/
namespace PullQuery.Query
open PullQuery.Data PullQuery.Number

def SumKind.onRationals : SumKind → ℚ → ℚ → ℚ
  | addition, x, y => x + y
  | subtraction, x, y => x - y

theorem SumKind.onDecimals?_eq_none {kind : SumKind} {a b : Decimal}
    (left : a.mantissa < Decimal.capacity) (right : b.mantissa < Decimal.capacity) :
    kind.onDecimals? a b = none ↔
      (Decimal.capacity : ℚ) - 1 / 2 ≤ |kind.onRationals a.value b.value| := by
  cases kind with
  | addition => exact Decimal.add?_eq_none left right
  | subtraction =>
    have negated : b.negate.mantissa < Decimal.capacity := right
    rw [onDecimals?, Decimal.add?_eq_none left negated, Decimal.value_negate, ← sub_eq_add_neg]
    rfl

/-- Two values that are not both integers are summed in decimal, and the exact result is at least
half a unit below the first number that needs more than 96 bits. -/
def Overflows (kind : SumKind) (left right : Value) : Prop :=
  (¬ ∃ m n, left = .integer m ∧ right = .integer n) ∧
    ∃ x y a b, left.float? = some x ∧ right.float? = some y ∧
      Decimal.ofFloat? x = some a ∧ Decimal.ofFloat? y = some b ∧
        2 ^ 96 - 1 / 2 ≤ |kind.onRationals a.value b.value|

private theorem sumFloats_overflow {kind : SumKind} {x y : Float} :
    sumFloats kind x y = .error (.overflow kind) ↔
      ∃ a b, Decimal.ofFloat? x = some a ∧ Decimal.ofFloat? y = some b ∧
        2 ^ 96 - 1 / 2 ≤ |kind.onRationals a.value b.value| := by
  have capacity : (2 : ℚ) ^ 96 = Decimal.capacity := by norm_num [Decimal.capacity]
  rw [sumFloats, capacity]
  constructor
  · intro stopped
    split at stopped
    · rename_i a b first second
      refine ⟨a, b, first, second, ?_⟩
      apply (SumKind.onDecimals?_eq_none (Decimal.mantissa_of_ofFloat? first)
        (Decimal.mantissa_of_ofFloat? second)).mp
      split at stopped
      · assumption
      · simp at stopped
    · simp at stopped
  · intro large
    obtain ⟨a, b, first, second, large⟩ := large
    have none : kind.onDecimals? a b = none :=
      (SumKind.onDecimals?_eq_none (Decimal.mantissa_of_ofFloat? first)
        (Decimal.mantissa_of_ofFloat? second)).mpr large
    simp [first, second, none]

private theorem sum_of_not_integers {kind : SumKind} {left right : Value}
    (other : ¬ ∃ m n, left = .integer m ∧ right = .integer n) :
    sum kind left right =
      match left.float?, right.float? with
      | some x, some y => sumFloats kind x y
      | _, _ => .ok .null := by
  unfold sum
  split
  · rename_i m n
    exact absurd ⟨m, n, rfl, rfl⟩ other
  · rfl

private theorem sum_overflow {kind : SumKind} {left right : Value} :
    sum kind left right = .error (.overflow kind) ↔ Overflows kind left right := by
  by_cases integers : ∃ m n, left = .integer m ∧ right = .integer n
  · obtain ⟨m, n, rfl, rfl⟩ := integers
    simp [sum, Overflows]
  · rw [sum_of_not_integers integers]
    constructor
    · intro stopped
      split at stopped
      · rename_i x y first second
        obtain ⟨a, b, large⟩ := sumFloats_overflow.mp stopped
        exact ⟨integers, x, y, a, b, first, second, large⟩
      · simp at stopped
    · intro overflows
      obtain ⟨-, x, y, a, b, first, second, large⟩ := overflows
      rw [first, second]
      exact sumFloats_overflow.mpr ⟨a, b, large⟩

private theorem fault_sum {context : Context} {kind : SumKind} {l r : Expr} {err : EvalError} :
    Fault context (.sum kind l r) err ↔
      err = .overflow kind ∧ ∃ left right, eval context l = .ok left ∧
        eval context r = .ok right ∧ Overflows kind left right := by
  constructor
  · intro fault
    obtain _ | ⟨lefts, rights, stopped⟩ := fault
    exact ⟨rfl, _, _, lefts, rights, sum_overflow.mp stopped⟩
  · intro told
    obtain ⟨rfl, left, right, lefts, rights, overflows⟩ := told
    exact .sum lefts rights (sum_overflow.mpr overflows)

/-- An evaluation is given up exactly if the first of its calls and sums that has a fault is a sum
that overflows. Otherwise it has a value, or fails with the fault of a call. Comparing is only asked
of operators that compare. -/
theorem overflows_iff_first_fault_is_large_sum (context : Context) (e : Expr) :
    (∀ kind, eval context e = .error (.overflow kind) ↔
      ∃ before l r behind left right, e.sites = before ++ .sum kind l r :: behind ∧
        (∀ earlier ∈ before, ∀ err, ¬ Fault context earlier err) ∧
          eval context l = .ok left ∧ eval context r = .ok right ∧ Overflows kind left right) ∧
    ((∃ kind, eval context e = .error (.overflow kind)) ∨
      (∃ value, eval context e = .ok value) ∨
        ∃ call ∈ e.calls, ∃ err, CallFault context call err ∧ eval context e = .error err) ∧
    ∀ compare, (∀ op, op.compares = true → compare op = comparison context.now op) →
      ∀ op left right, binaryValueBy compare op left right = binaryValue context.now op left right := by
  refine ⟨fun kind => ?_, ?_, ?_⟩
  · rw [decides_eval context e (.overflow kind)]
    constructor
    · intro failing
      obtain ⟨before, site, behind, split, sound, fault⟩ := failing
      cases fault with
      | call faulty => cases faulty
      | sum lefts rights stopped =>
        exact ⟨before, _, _, behind, _, _, split, sound, lefts, rights, sum_overflow.mp stopped⟩
    · intro told
      obtain ⟨before, l, r, behind, left, right, split, sound, lefts, rights, overflows⟩ := told
      exact ⟨before, _, behind, split, sound, fault_sum.mpr ⟨rfl, _, _, lefts, rights, overflows⟩⟩
  · by_cases stopped : ∃ kind, eval context e = .error (.overflow kind)
    · exact .inl stopped
    · cases result : eval context e with
      | ok value => exact .inr (.inl ⟨value, rfl⟩)
      | error err =>
        have failing := (decides_calls (not_exists.mp stopped) err).mp result
        obtain ⟨before, call, behind, split, -, faulty⟩ := failing
        exact .inr (.inr ⟨call, by simp [split], err, faulty, rfl⟩)
  · exact fun _ agrees op left right => binaryValueBy_congr (agrees op) left right

/-- `50000000000000000000000000000.0 + 50000000000000000000000000000.0` -/
def largeSum : Expr :=
  .binary .add (.float 50000000000000000000000000000.0) (.float 50000000000000000000000000000.0)

def guardedComparison (op : BinaryOp) (left right : Value) : Bool :=
  op.compares && comparison .epoch op left right

theorem overflows_iff_first_fault_is_large_sum_guarded :
    (∀ op, BinaryOp.compares op = true → guardedComparison op = comparison .epoch op) ∧
      (∃ l r left right, .sum .addition l r ∈ largeSum.sites ∧ eval ⟨.sample, .epoch⟩ l = .ok left ∧
        eval ⟨.sample, .epoch⟩ r = .ok right ∧ Overflows .addition left right) ∧
      binaryValueBy guardedComparison .less .null .null = .ok (.boolean false) := by
  have agrees (op : BinaryOp) (compares : op.compares = true) :
      guardedComparison op = comparison .epoch op := by
    funext left right
    rw [guardedComparison, compares, Bool.true_and]
  obtain ⟨stopped, -, compared⟩ := overflows_iff_first_fault_is_large_sum ⟨.sample, .epoch⟩ largeSum
  obtain ⟨before, l, r, behind, left, right, split, -, lefts, rights, large⟩ :=
    (stopped .addition).mp rfl
  exact ⟨agrees, ⟨l, r, left, right, by simp [split], lefts, rights, large⟩,
    compared guardedComparison agrees .less .null .null⟩

/-- The number after the title is too large to be added to itself, although the title decides. -/
theorem not_evaluates_of_large_sum :
    Filter.run .standard [] .epoch [.sample] (.query
      "title = 'x' OR 50000000000000000000000000000.0 + 50000000000000000000000000000.0 = 0") =
        .error (.eval (.overflow .addition)) ∧
      ¬ ∀ context e kind, eval context e ≠ .error (.overflow kind) := by
  have stopped : eval ⟨.sample, .epoch⟩ largeSum = .error (.overflow .addition) := rfl
  exact ⟨by decide +kernel, fun never => never _ _ _ stopped⟩

end PullQuery.Query
