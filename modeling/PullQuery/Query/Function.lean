import PullQuery.Record.Reviews
import PullQuery.Value.Basic

/-! The functions of the query language, and what stops an evaluation. -/
namespace PullQuery.Query

inductive SumKind where
  | addition
  | subtraction
  deriving DecidableEq, Repr

inductive EvalError where
  | unknownFunction (name : String) (record : String)
  | notText (function : String) (kindName : String)
  | unknownMode (function : String) (mode : String)
  | overflow (kind : SumKind)
  deriving DecidableEq, Repr

def EvalError.message : EvalError → String
  | unknownFunction name record =>
    s!"Invalid function `{name}` (while evaluating record {record})"
  | notText function kindName =>
    s!"Invalid argument to `{function}`: argument 1 must be a string, got {kindName}"
  | unknownMode function mode =>
    s!"Invalid argument to `{function}`: mode must be \"newest\" or \"latest\", got \"{mode}\""
  | overflow .addition => "Addition overflowed"
  | overflow .subtraction => "Subtraction overflowed"

structure Context where
  record : PullRequest
  now : Time.Instant

namespace Function

def reviewDate : String := "getReviewDate"

def requestedAt : String := "getReviewRequestedAt"

def names : List String := [reviewDate, requestedAt]

/-- The first argument as text, with a default where it is missing or nothing. -/
def textArgument (function : String) (default : String) : List Value → Except EvalError String
  | [] | .null :: _ => .ok default
  | .list items :: _ => .error (.notText function (Value.list items).kindName)
  | .instant t :: _ => .error (.notText function (Value.instant t).kindName)
  | value :: _ => .ok value.asText

/-- The value of a function. Arguments after the first are not looked at. -/
def call (context : Context) (name : String) (arguments : List Value) : Except EvalError Value :=
  if name = reviewDate then do
    let state ← textArgument name "APPROVED" arguments
    return .instant (context.record.lastReviewAt state)
  else if name = requestedAt then do
    let mode ← textArgument name "newest" arguments
    match RequestChoice.ofText? mode with
    | none => throw (.unknownMode name mode)
    | some mode =>
      return ((context.record.openRequests.requestedAt? mode).map Value.instant).getD .null
  else throw (.unknownFunction name context.record.id)

end Function
end PullQuery.Query
