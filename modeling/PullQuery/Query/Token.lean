import PullQuery.Number.Shortest

/-! The tokens of the query language, their spellings and the texts that name them in messages. -/
namespace PullQuery.Query

open PullQuery.Number

inductive Token where
  | integer (n : Int64)
  | float (x : Float)
  | text (s : String)
  | boolean (b : Bool)
  | null
  | name (s : String)
  | equal
  | doubleEqual
  | notEqual
  | lessGreater
  | tilde
  | less
  | greater
  | lessEqual
  | greaterEqual
  | isIn
  | notIn
  | not
  | and
  | or
  | plus
  | minus
  | openParen
  | closeParen
  | comma
  deriving DecidableEq

namespace Token

/-- Tokens spelled by symbols. Of two spellings that start alike the longer one comes first. -/
def symbols : List (List Char × Token) :=
  [(['=', '='], doubleEqual), (['='], equal), (['!', '='], notEqual), (['<', '='], lessEqual),
   (['<', '>'], lessGreater), (['<'], less), (['>', '='], greaterEqual), (['>'], greater),
   (['&', '&'], and), (['|', '|'], or), (['~'], tilde), (['+'], plus), (['-'], minus),
   (['('], openParen), ([')'], closeParen), ([','], comma)]

/-- Words with a meaning of their own. Operators are recognised in capitals and in small letters,
never in a mixture. -/
def keywords : List (List Char × Token) :=
  [(['A', 'N', 'D'], and), (['a', 'n', 'd'], and), (['O', 'R'], or), (['o', 'r'], or),
   (['I', 'N'], isIn), (['i', 'n'], isIn), (['N', 'O', 'T'], not), (['n', 'o', 't'], not),
   (['t', 'r', 'u', 'e'], boolean true), (['f', 'a', 'l', 's', 'e'], boolean false),
   (['n', 'u', 'l', 'l'], null)]

def display : Token → String
  | integer n => wordText n
  | float x => floatText x
  | text s => s!"\"{s}\""
  | boolean true => "true"
  | boolean false => "false"
  | null => "null"
  | name s => s
  | equal => "="
  | doubleEqual => "=="
  | notEqual => "!="
  | lessGreater => "<>"
  | tilde => "~"
  | less => "<"
  | greater => ">"
  | lessEqual => "<="
  | greaterEqual => ">="
  | isIn => "IN"
  | notIn => "NOT IN"
  | not => "NOT"
  | and => "AND"
  | or => "OR"
  | plus => "+"
  | minus => "-"
  | openParen => "("
  | closeParen => ")"
  | comma => ","

end Token
end PullQuery.Query
