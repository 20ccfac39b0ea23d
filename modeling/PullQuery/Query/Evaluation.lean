import PullQuery.Number.Decimal
import PullQuery.Query.Function
import PullQuery.Query.Syntax
import PullQuery.Record.Field
import PullQuery.Value.Equality

/-! The value of a query for a record. Every part is evaluated, from left to right, whatever the
others yield. Operands that do not suit an operator make a comparison false and a sum nothing. -/
namespace PullQuery.Query

open PullQuery.Number
open PullQuery.Time

/-- A float as a number: an integer if it has no fraction and is small enough. -/
def narrowed (x : Float) : Value :=
  if isWhole x && x.abs < 9223372036854775808 then .integer x.toInt64 else .float x

def wordValue (n : Int) : Value := ((word? n).map Value.integer).getD .null

def unaryValue : UnaryOp → Value → Value
  | .negate, .integer n => wordValue (-n.toInt)
  | .negate, .float x => .float (-x)
  | .plus, .integer n => .integer n
  | .plus, .float x => .float x
  | .negate, value => ((value.float?).map fun x => narrowed (-x)).getD .null
  | .plus, value => ((value.float?).map narrowed).getD .null

namespace SumKind

def onIntegers : SumKind → Int → Int → Int
  | addition, m, n => m + n
  | subtraction, m, n => m - n

def onFloats : SumKind → Float → Float → Float
  | addition, x, y => x + y
  | subtraction, x, y => x - y

def onDecimals? : SumKind → Decimal → Decimal → Option Decimal
  | addition, a, b => a.add? b
  | subtraction, a, b => a.add? b.negate

end SumKind

/-- The sum of two floats, formed in decimal where both have a decimal. -/
def sumFloats (kind : SumKind) (x y : Float) : Except EvalError Value :=
  match Decimal.ofFloat? x, Decimal.ofFloat? y with
  | some a, some b =>
    match kind.onDecimals? a b with
    | none => .error (.overflow kind)
    | some sum => .ok (((sum.toWord?).map Value.integer).getD (.float sum.toFloat))
  | _, _ => .ok (narrowed (kind.onFloats x y))

def sum (kind : SumKind) : Value → Value → Except EvalError Value
  | .integer m, .integer n => .ok (wordValue (kind.onIntegers m.toInt n.toInt))
  | left, right =>
    match left.float?, right.float? with
    | some x, some y => sumFloats kind x y
    | _, _ => .ok .null

/-- A list on the left equals what one of its items equals. -/
def equal (left right : Value) : Bool :=
  match left with
  | .list items => items.any fun item => item.equals right
  | left => left.equals right

/-- Whether the value, or an item of a list on the left, equals one on the right. -/
def sharesItem (left right : Value) : Bool :=
  let hit (item : Value) := right.items.any fun candidate => item.equals candidate
  match left with
  | .list items => items.any hit
  | left => hit left

def ordered (now : Instant) (holds : Instant → Instant → Bool) (left right : Value) : Bool :=
  match left.instant? now, right.instant? now with
  | some a, some b => holds a b
  | _, _ => false

/-- What a comparison yields. Other operators compare nothing. -/
def comparison (now : Instant) (op : BinaryOp) (left right : Value) : Bool :=
  match op with
  | .equal => equal left right
  | .notEqual => !equal left right
  | .contains => left.contains right
  | .less => ordered now (fun a b => decide (a < b)) left right
  | .lessEqual => ordered now (fun a b => decide (a ≤ b)) left right
  | .greater => ordered now (fun a b => decide (b < a)) left right
  | .greaterEqual => ordered now (fun a b => decide (b ≤ a)) left right
  | .isIn => sharesItem left right
  | .notIn => !sharesItem left right
  | .add | .subtract | .and | .or => false

/-- The value of an operator, where `compare` says what the operators that compare yield. -/
def binaryValueBy (compare : BinaryOp → Value → Value → Bool) (op : BinaryOp)
    (left right : Value) : Except EvalError Value :=
  match op with
  | .and => .ok (.boolean (left.isTruthy && right.isTruthy))
  | .or => .ok (.boolean (left.isTruthy || right.isTruthy))
  | .add => sum .addition left right
  | .subtract => sum .subtraction left right
  | op => .ok (.boolean (compare op left.unwrapped right.unwrapped))

def binaryValue (now : Instant) (op : BinaryOp) (left right : Value) : Except EvalError Value :=
  binaryValueBy (comparison now) op left right

/-- Where an operand is expected a bare name is the text of itself. -/
def asOperand (e : Expr) (value : Except EvalError Value) : Except EvalError Value :=
  match e with
  | .name s => .ok (.text s)
  | _ => value

mutual

def eval (context : Context) : Expr → Except EvalError Value
  | .integer n => .ok (.integer n)
  | .float x => .ok (.float x)
  | .text s => .ok (.text s)
  | .boolean b => .ok (.boolean b)
  | .null => .ok .null
  | .name s => .ok (context.record.field s)
  | .unary op e => do
    let value ← eval context e
    return unaryValue op value
  | .binary op l r => do
    let left ← eval context l
    let right ←
      if op.compares then asOperand r (eval context r) else eval context r
    binaryValue context.now op left right
  | .list es => do
    let values ← evalOperands context es
    return .list (values.flatMap Value.items)
  | .call name es => do
    let values ← evalOperands context es
    Function.call context name values
  | .all es => do
    let values ← evalAll context es
    return .boolean (values.all Value.isTruthy)

def evalOperands (context : Context) : List Expr → Except EvalError (List Value)
  | [] => .ok []
  | e :: rest => do
    let value ← asOperand e (eval context e)
    let values ← evalOperands context rest
    return value :: values

def evalAll (context : Context) : List Expr → Except EvalError (List Value)
  | [] => .ok []
  | e :: rest => do
    let value ← eval context e
    let values ← evalAll context rest
    return value :: values

end

def holds (context : Context) (e : Expr) : Except EvalError Bool :=
  (eval context e).map Value.isTruthy

/-- The records that satisfy a query, in order. The first record for which the evaluation fails
decides. -/
def select (e : Expr) (now : Time.Instant) : List PullRequest → Except EvalError (List PullRequest)
  | [] => .ok []
  | pr :: rest => do
    let kept ← holds ⟨pr, now⟩ e
    let others ← select e now rest
    return if kept then pr :: others else others

end PullQuery.Query
