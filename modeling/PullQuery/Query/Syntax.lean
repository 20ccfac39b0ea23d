import PullQuery.Query.Token

/-! The syntax of queries: operators, the tables that say which of them a parser knows and how
tightly they bind, and trees. -/
namespace PullQuery.Query

inductive BinaryOp where
  | equal
  | notEqual
  | contains
  | less
  | greater
  | lessEqual
  | greaterEqual
  | isIn
  | notIn
  | add
  | subtract
  | and
  | or
  deriving DecidableEq, Repr

namespace BinaryOp

def every : List BinaryOp :=
  [equal, notEqual, contains, less, greater, lessEqual, greaterEqual, isIn, notIn, add, subtract,
   and, or]

theorem mem_every (op : BinaryOp) : op ∈ every := by cases op <;> decide

def ofToken? : Token → Option BinaryOp
  | .equal | .doubleEqual => some equal
  | .notEqual | .lessGreater => some notEqual
  | .tilde => some contains
  | .less => some less
  | .greater => some greater
  | .lessEqual => some lessEqual
  | .greaterEqual => some greaterEqual
  | .isIn => some isIn
  | .notIn => some notIn
  | .plus => some add
  | .minus => some subtract
  | .and => some and
  | .or => some or
  | _ => none

/-- Whether the operator compares, so that a bare name on its right is text. -/
def compares : BinaryOp → Bool
  | add | subtract | and | or => false
  | _ => true

end BinaryOp

inductive UnaryOp where
  | negate
  | plus
  deriving DecidableEq, Repr

def UnaryOp.ofToken? : Token → Option UnaryOp
  | .minus => some negate
  | .plus => some plus
  | _ => none

/-- The binary operators with their precedences, where the higher binds tighter, and the unary
operators in the order of their registration. -/
structure OperatorTable where
  precedence : BinaryOp → Option Nat
  unary : List UnaryOp

namespace OperatorTable

instance : DecidableEq OperatorTable := fun a b =>
  decidable_of_iff
    ((∀ op ∈ BinaryOp.every, a.precedence op = b.precedence op) ∧ a.unary = b.unary) <| by
      constructor
      · rintro ⟨same, unary⟩
        obtain ⟨precedence, _⟩ := a
        obtain ⟨other, _⟩ := b
        obtain rfl : precedence = other := funext fun op => same op (BinaryOp.mem_every op)
        exact congrArg _ unary
      · rintro rfl
        exact ⟨fun _ _ => rfl, rfl⟩

def empty : OperatorTable := ⟨fun _ => none, []⟩

def addBinary (table : OperatorTable) (op : BinaryOp) (precedence : Nat) : OperatorTable :=
  { table with
    precedence := fun other => if other = op then some precedence else table.precedence other }

def addUnary (table : OperatorTable) (op : UnaryOp) : OperatorTable :=
  if op ∈ table.unary then table else { table with unary := table.unary ++ [op] }

/-- The operators of the query language: OR binds loosest, then AND, membership, the comparisons
and the sums. -/
def standard : OperatorTable where
  precedence
    | .or => some 1
    | .and => some 2
    | .isIn | .notIn => some 3
    | .equal | .notEqual | .contains | .less | .lessEqual | .greater | .greaterEqual => some 4
    | .add | .subtract => some 5
  unary := [.negate, .plus]

def binary? (table : OperatorTable) (token : Token) : Option (BinaryOp × Nat) := do
  let op ← BinaryOp.ofToken? token
  let precedence ← table.precedence op
  return (op, precedence)

def unary? (table : OperatorTable) (token : Token) : Option UnaryOp :=
  (UnaryOp.ofToken? token).filter (· ∈ table.unary)

end OperatorTable

inductive Expr where
  | integer (n : Int64)
  | float (x : Float)
  | text (s : String)
  | boolean (b : Bool)
  | null
  | name (s : String)
  | unary (op : UnaryOp) (operand : Expr)
  | binary (op : BinaryOp) (left right : Expr)
  | list (items : List Expr)
  | call (function : String) (arguments : List Expr)
  | all (parts : List Expr)

namespace Expr

/-- The items of a list written in its place, anything else alone. -/
def splice : Expr → List Expr
  | list items => items
  | e => [e]

def ofItems (items : List Expr) : Expr := list (items.flatMap splice)

/-- Expressions side by side: one stands for itself, several hold together. -/
def ofParts : List Expr → Expr
  | [e] => e
  | parts => all parts

end Expr

end PullQuery.Query
