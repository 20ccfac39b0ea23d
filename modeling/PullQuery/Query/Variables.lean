import PullQuery.Data.Ordered
import PullQuery.Query.Duration
import PullQuery.Query.Grammar

/-! Variables such as @me, and the reading of a query that mentions them. Their names are replaced
by quoted literals of their values before anything else is read. -/
namespace PullQuery.Query

open PullQuery.Data
open PullQuery.Text

abbrev Variables := Dictionary String

namespace Variables

/-- The variable that stands for the login of the current user. -/
def me : String := "@me"

def ofUser (login : String) : Variables := [(me, login)]

def currentUser? (bindings : Variables) : Option String := Dictionary.find? bindings me

end Variables

def endsInWord : List Char → Bool
  | [] => false
  | [c] => isAlphanumeric c || c == '_'
  | _ :: rest => endsInWord rest

def lastInWord : List Char → Bool
  | [] => false
  | [c] => isWordChar c
  | _ :: rest => lastInWord rest

/-- How many characters a name takes at the front of a text: in double quotes, in single quotes,
or bare. A bare name that ends like a word must end where a word does. -/
def occurrence? (name : List Char) (cs : List Char) : Option Nat :=
  if ('"' :: name ++ ['"']).isPrefixOf cs || ('\'' :: name ++ ['\'']).isPrefixOf cs then
    some (name.length + 2)
  else if name.isPrefixOf cs &&
      (!endsInWord name || lastInWord name != startsInWord (cs.drop name.length)) then
    some name.length
  else none

/-- Whether a piece of a text may be replaced: it is a whole literal, or it begins outside of the
literals. -/
def isReplaceable (spans : List Span) (piece : Span) : Bool :=
  match spans.find? (·.holds piece.start) with
  | some span => span == piece
  | none => true

/-- Picks the occurrences of a name. Those within longer literals stay as they are. -/
def variableRule (name : List Char) (value : List Char) : PieceRule := fun before after => do
  let width ← occurrence? name after
  let piece : Span := ⟨before.length, before.length + width⟩
  if isReplaceable (literalSpans (before.reverse ++ after)) piece then
    return ⟨width, asLiteral value⟩
  else return ⟨width, after.take width⟩

def substituteOne (name value : String) (cs : List Char) : List Char :=
  replacePieces (variableRule name.toList value.toList) cs

/-- The variables with a name, the longest names first. Names of one length stay in order. -/
def Variables.byLength (bindings : Variables) : List (String × String) :=
  stableSort (fun a b => decide (b.1.utf8ByteSize < a.1.utf8ByteSize))
    (bindings.filter fun binding => binding.1 ≠ "")

def Variables.substitute (bindings : Variables) (cs : List Char) : List Char :=
  bindings.byLength.foldl (fun cs binding => substituteOne binding.1 binding.2 cs) cs

/-- A query as it is read: variables are replaced, then durations become seconds. -/
def expand (bindings : Variables) (cs : List Char) : List Char :=
  durationsInSeconds (bindings.substitute cs)

structure Compiled where
  source : String
  expanded : String
  expr : Expr

def compile (table : OperatorTable) (bindings : Variables) (source : String) :
    Except ParseError Compiled := do
  let cs := expand bindings source.toList
  let expr ← parse table cs
  return ⟨source, String.ofList cs, expr⟩

end PullQuery.Query
