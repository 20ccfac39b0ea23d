import PullQuery.Proofs.Query.Parsing

/-! Writing a tree as a query, with parentheses only where the precedences ask for them, and the
trees that can be written. -/
namespace PullQuery.Query
open PullQuery.Number PullQuery.Text

def BinaryOp.spelling : BinaryOp → List Char
  | equal => ['=']
  | notEqual => ['!', '=']
  | contains => ['~']
  | less => ['<']
  | greater => ['>']
  | lessEqual => ['<', '=']
  | greaterEqual => ['>', '=']
  | isIn => ['I', 'N']
  | notIn => ['N', 'O', 'T', ' ', 'I', 'N']
  | add => ['+']
  | subtract => ['-']
  | and => ['A', 'N', 'D']
  | or => ['O', 'R']

def BinaryOp.token : BinaryOp → Token
  | equal => .equal
  | notEqual => .notEqual
  | contains => .tilde
  | less => .less
  | greater => .greater
  | lessEqual => .lessEqual
  | greaterEqual => .greaterEqual
  | isIn => .isIn
  | notIn => .notIn
  | add => .plus
  | subtract => .minus
  | and => .and
  | or => .or

def UnaryOp.spelling : UnaryOp → Char
  | negate => '-'
  | plus => '+'

def UnaryOp.token : UnaryOp → Token
  | negate => .minus
  | plus => .plus

structure ReadsAs (whole fraction : List Char) (x : Float) : Prop where
  whole_ne_nil : whole ≠ []
  fraction_ne_nil : fraction ≠ []
  whole_digits : ∀ c ∈ whole, c.isDigit = true
  fraction_digits : ∀ c ∈ fraction, c.isDigit = true
  value : decimalFloat whole fraction = x

structure FloatSpelling where
  whole : Float → List Char
  fraction : Float → List Char
  reads : ∀ {x : Float} {digits decimals : List Char}, ReadsAs digits decimals x →
    ReadsAs (whole x) (fraction x) x

/-- The precedence of a binary operator, the loosest for one that the table does not know. -/
def OperatorTable.rank (table : OperatorTable) (op : BinaryOp) : Nat :=
  (table.precedence op).getD 0

namespace Expr

def rank? (table : OperatorTable) : Expr → Option Nat
  | binary op _ _ => some (table.rank op)
  | _ => none

def isList : Expr → Bool
  | list _ => true
  | _ => false

def enclose (needed : Bool) (text : List Char) : List Char :=
  if needed then '(' :: (text ++ [')']) else text

section Print
variable (table : OperatorTable) (floats : FloatSpelling)

mutual

def print : Expr → List Char
  | integer n => natDigits n.toInt.toNat
  | float x => floats.whole x ++ '.' :: floats.fraction x
  | text s => asLiteral s.toList
  | boolean true => ['t', 'r', 'u', 'e']
  | boolean false => ['f', 'a', 'l', 's', 'e']
  | null => ['n', 'u', 'l', 'l']
  | name s => s.toList
  | unary op e => op.spelling :: enclose (e.rank? table).isSome (print e)
  | binary op left right =>
    enclose ((left.rank? table).any (· < table.rank op)) (print left) ++
      ' ' :: (op.spelling ++
        ' ' :: enclose ((right.rank? table).any (· ≤ table.rank op)) (print right))
  | list [e] => '(' :: '(' :: ')' :: ',' :: ' ' :: (print e ++ [')'])
  | list items => '(' :: (printItems items ++ [')'])
  | call function arguments => function.toList ++ '(' :: (printItems arguments ++ [')'])
  | all parts => '(' :: (printParts parts ++ [')'])

def printItems : List Expr → List Char
  | [] => []
  | [e] => print e
  | e :: f :: rest => print e ++ ',' :: ' ' :: printItems (f :: rest)

def printParts : List Expr → List Char
  | [] => []
  | [e] => enclose true (print e)
  | e :: f :: rest => enclose true (print e) ++ ' ' :: printParts (f :: rest)

end

/-- The text of a whole query: expressions side by side need no parentheses around them. -/
def printQuery : Expr → List Char
  | all parts => printParts table floats parts
  | e => print table floats e

end Print

/-- The trees that a query below its root can stand for. -/
inductive WellFormed (table : OperatorTable) : Expr → Prop
  | integer {n : Int64} (nonnegative : 0 ≤ n.toInt) : WellFormed table (.integer n)
  | float {x : Float} {whole fraction : List Char} (reads : ReadsAs whole fraction x) :
      WellFormed table (.float x)
  | text (s : String) : WellFormed table (.text s)
  | boolean (b : Bool) : WellFormed table (.boolean b)
  | null : WellFormed table .null
  | name {s : String} (single : tokenize s.toList = .ok [.name s]) : WellFormed table (.name s)
  | unary {op : UnaryOp} {e : Expr} (known : op ∈ table.unary) (operand : WellFormed table e) :
      WellFormed table (.unary op e)
  | binary {op : BinaryOp} {left right : Expr} (known : (table.precedence op).isSome = true)
      (first : WellFormed table left) (second : WellFormed table right) :
      WellFormed table (.binary op left right)
  | list {items : List Expr} (flat : ∀ e ∈ items, e.isList = false)
      (each : ∀ e ∈ items, WellFormed table e) : WellFormed table (.list items)
  | call {function : String} {arguments : List Expr}
      (single : tokenize function.toList = .ok [.name function])
      (flat : ∀ e ∈ arguments, e.isList = false)
      (each : ∀ e ∈ arguments, WellFormed table e) : WellFormed table (.call function arguments)
  | all {parts : List Expr} (several : 2 ≤ parts.length)
      (each : ∀ e ∈ parts, WellFormed table e) : WellFormed table (.all parts)

end Expr
end PullQuery.Query
