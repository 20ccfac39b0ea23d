import PullQuery.Proofs.Query.Selecting

/-! Sums of integers. Whatever is added, subtracted and negated, the value is the exact result as long as
each part has a result of 64 bits, and nothing as soon as one part has none: what a part without a value
is added to has no value either, since it is neither an integer nor a float. -/
namespace PullQuery

inductive CountField where
  | number
  | totalComments
  deriving DecidableEq, Repr

namespace CountField

def field : CountField → Field
  | number => .number
  | totalComments => .totalCommentsCount

def count (pr : PullRequest) : CountField → Int64
  | number => pr.number
  | totalComments => pr.totalCommentsCount

end CountField

theorem field_of_count {name : String} {counted : CountField}
    (named : Field.ofNameOrAlias? name = some counted.field) (pr : PullRequest) :
    pr.field name = .integer (counted.count pr) := by
  rw [PullRequest.field, named]
  cases counted <;> rfl

namespace Query
open Number

def FitsWord (n : Int) : Prop := -0x8000000000000000 ≤ n ∧ n < 0x8000000000000000

instance (n : Int) : Decidable (FitsWord n) :=
  inferInstanceAs (Decidable (-0x8000000000000000 ≤ n ∧ n < 0x8000000000000000))

private theorem fitsWord_toInt (n : Int64) : FitsWord n.toInt := ⟨n.le_toInt, n.toInt_lt⟩

private theorem wordValue_eq (n : Int) :
    wordValue n = if FitsWord n then .integer (Int64.ofInt n) else .null := by
  change ((if FitsWord n then some (Int64.ofInt n) else none).map Value.integer).getD .null = _
  split <;> rfl

def UnaryOp.onInteger : UnaryOp → Int → Int
  | negate, n => -n
  | plus, n => n

def SumKind.op : SumKind → BinaryOp
  | addition => .add
  | subtraction => .subtract

/-- Integers, fields that hold one, and their sums, differences and signs. A field is written with its
name or an alias. -/
inductive IntegerSum where
  | integer (n : Int64)
  | field (name : String) (counted : CountField)
      (named : Field.ofNameOrAlias? name = some counted.field)
  | unary (op : UnaryOp) (operand : IntegerSum)
  | sum (kind : SumKind) (left right : IntegerSum)

namespace IntegerSum

def expr : IntegerSum → Expr
  | integer n => .integer n
  | field name _ _ => .name name
  | unary op e => .unary op e.expr
  | sum kind l r => .binary kind.op l.expr r.expr

def exact (pr : PullRequest) : IntegerSum → Int
  | integer n => n.toInt
  | field _ counted _ => (counted.count pr).toInt
  | unary op e => op.onInteger (e.exact pr)
  | sum kind l r => kind.onIntegers (l.exact pr) (r.exact pr)

def parts : IntegerSum → List IntegerSum
  | integer n => [integer n]
  | field name counted named => [field name counted named]
  | unary op e => unary op e :: e.parts
  | sum kind l r => sum kind l r :: (l.parts ++ r.parts)

def Fits (pr : PullRequest) (e : IntegerSum) : Prop := ∀ part ∈ e.parts, FitsWord (part.exact pr)

instance (pr : PullRequest) (e : IntegerSum) : Decidable (e.Fits pr) :=
  inferInstanceAs (Decidable (∀ part ∈ e.parts, FitsWord (part.exact pr)))

def value (pr : PullRequest) (e : IntegerSum) : Value :=
  if e.Fits pr then .integer (Int64.ofInt (e.exact pr)) else .null

section Fitting
variable {pr : PullRequest} {e l r : IntegerSum}

private theorem fits_unary {op : UnaryOp} :
    (unary op e).Fits pr ↔ FitsWord (op.onInteger (e.exact pr)) ∧ e.Fits pr :=
  List.forall_mem_cons

private theorem fits_sum {kind : SumKind} :
    (sum kind l r).Fits pr ↔
      FitsWord (kind.onIntegers (l.exact pr) (r.exact pr)) ∧ l.Fits pr ∧ r.Fits pr :=
  List.forall_mem_cons.trans (and_congr_right' List.forall_mem_append)

private theorem Fits.fitsWord (fits : e.Fits pr) : FitsWord (e.exact pr) := by
  apply fits
  cases e <;> exact .head _

private theorem value_of_fits (fits : e.Fits pr) :
    ∃ n : Int64, n.toInt = e.exact pr ∧ e.value pr = .integer n :=
  have bounds := fits.fitsWord
  ⟨_, Int64.toInt_ofInt_of_le bounds.1 bounds.2, if_pos fits⟩

private theorem value_of_not_fits (unfit : ¬ e.Fits pr) : e.value pr = .null := if_neg unfit

end Fitting

section Steps
variable (pr : PullRequest)

private theorem unaryValue_integer (op : UnaryOp) (n : Int64) :
    unaryValue op (.integer n) = wordValue (op.onInteger n.toInt) := by
  cases op with
  | negate => rfl
  | plus =>
    rw [UnaryOp.onInteger, wordValue, word?_toInt]
    rfl

private theorem unaryValue_value (op : UnaryOp) (e : IntegerSum) :
    unaryValue op (e.value pr) = (unary op e).value pr := by
  by_cases fits : e.Fits pr
  · obtain ⟨n, exact, same⟩ := value_of_fits fits
    rw [same, unaryValue_integer, wordValue_eq, exact, value]
    simp only [fits_unary, fits, and_true]
    rfl
  · have unfit : ¬ (unary op e).Fits pr := fun whole => fits (fits_unary.mp whole).2
    rw [value_of_not_fits fits, value_of_not_fits unfit]
    cases op <;> rfl

/-- A sum is formed of two integers or not at all: without one of them it is not formed of floats
either. -/
theorem sum_value (kind : SumKind) (l r : IntegerSum) :
    Query.sum kind (l.value pr) (r.value pr) = .ok ((sum kind l r).value pr) := by
  by_cases left : l.Fits pr
  · obtain ⟨m, first, same⟩ := value_of_fits left
    by_cases right : r.Fits pr
    · obtain ⟨n, second, other⟩ := value_of_fits right
      rw [same, other, Query.sum, first, second, wordValue_eq, value]
      simp only [fits_sum, left, right, and_true]
      rfl
    · have unfit : ¬ (sum kind l r).Fits pr := fun whole => right (fits_sum.mp whole).2.2
      rw [same, value_of_not_fits right, value_of_not_fits unfit]
      rfl
  · have unfit : ¬ (sum kind l r).Fits pr := fun whole => left (fits_sum.mp whole).2.1
    rw [value_of_not_fits left, value_of_not_fits unfit]
    rfl

end Steps

private theorem eval_expr (context : Context) (e : IntegerSum) :
    eval context e.expr = .ok (e.value context.record) := by
  induction e with
  | integer n =>
    have fits : (integer n).Fits context.record := List.forall_mem_singleton.mpr (fitsWord_toInt n)
    rw [value, if_pos fits, exact, Int64.ofInt_toInt]
    rfl
  | field name counted named =>
    have fits : (field name counted named).Fits context.record :=
      List.forall_mem_singleton.mpr (fitsWord_toInt _)
    rw [value, if_pos fits, exact, Int64.ofInt_toInt]
    exact congrArg Except.ok (field_of_count named context.record)
  | unary op e ih =>
    rw [← unaryValue_value, expr, eval, ih]
    rfl
  | sum kind l r left right =>
    rw [← sum_value, expr, eval_binary, left, right]
    cases kind <;> rfl

end IntegerSum

/-- A sum of integers has its exact result for its value if each of its parts has a result of 64 bits, and
nothing if one part has none, whatever the whole would amount to. -/
theorem integers_are_summed_exactly (e : IntegerSum) (context : Context) :
    ((∀ part ∈ e.parts, FitsWord (part.exact context.record)) →
      ∃ n : Int64, n.toInt = e.exact context.record ∧ eval context e.expr = .ok (.integer n)) ∧
    ((∃ part ∈ e.parts, ¬ FitsWord (part.exact context.record)) → eval context e.expr = .ok .null) := by
  rw [IntegerSum.eval_expr]
  constructor
  · intro fits
    obtain ⟨n, exact, same⟩ := IntegerSum.value_of_fits fits
    exact ⟨n, exact, congrArg Except.ok same⟩
  · intro excess
    obtain ⟨part, member, large⟩ := excess
    have unfit : ¬ e.Fits context.record := fun fits => large (fits part member)
    rw [IntegerSum.value_of_not_fits unfit]

/-- `top - number + comments` -/
def remaining (top : Int64) : IntegerSum :=
  .sum .addition (.sum .subtraction (.integer top) (.field "number" .number rfl))
    (.field "comments" .totalComments rfl)

/-- The least word is reached, but it cannot be negated, and it does not help that what is added then
brings the whole back into the range. -/
theorem integers_are_summed_exactly_least :
    let context : Context := ⟨.sample, .epoch⟩
    let least : IntegerSum := remaining (-9223372036854775806)
    let raised : IntegerSum := .sum .addition (.unary .negate least) (.integer (-1))
    ((∀ part ∈ least.parts, FitsWord (part.exact .sample)) ∧
      least.exact .sample = -9223372036854775808 ∧
      eval context least.expr = .ok (.integer (-9223372036854775808))) ∧
    (∃ part ∈ raised.parts, ¬ FitsWord (part.exact .sample)) ∧
      FitsWord (raised.exact .sample) ∧ eval context raised.expr = .ok .null := by
  intro context least raised
  have fits : ∀ part ∈ least.parts, FitsWord (part.exact .sample) := by decide
  have excess : ∃ part ∈ raised.parts, ¬ FitsWord (part.exact .sample) := by decide
  obtain ⟨n, exact, value⟩ := (integers_are_summed_exactly least context).1 fits
  obtain rfl : n = -9223372036854775808 := Int64.toInt.inj exact
  exact ⟨⟨fits, rfl, value⟩, excess, by decide, (integers_are_summed_exactly raised context).2 excess⟩

end Query
end PullQuery
