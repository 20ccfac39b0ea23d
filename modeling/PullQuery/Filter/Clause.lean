import PullQuery.Data.Ordered
import PullQuery.Query.Variables
import PullQuery.Record.Field
import PullQuery.Value.Equality

/-! Structured filters: clauses that compare a field with given values. A record passes a list of
clauses if it passes every one. -/
namespace PullQuery.Filter

open PullQuery.Data
open PullQuery.Query (Variables)

/-- How a clause compares: the field is true, it is false, some of the values is present, all of
them are, or none is. -/
inductive Comparator where
  | isTrue
  | isFalse
  | includes
  | includesAll
  | excludes
  deriving DecidableEq, Repr

inductive Scalar where
  | boolean (b : Bool)
  | integer (n : Int64)
  | float (x : Float)
  | text (s : String)
  deriving DecidableEq

def Scalar.toValue : Scalar → Value
  | boolean b => .boolean b
  | integer n => .integer n
  | float x => .float x
  | text s => .text s

structure Clause where
  field : String
  compare : Comparator
  value : Option Scalar
  values : List Scalar
  deriving DecidableEq

namespace Clause

def wanted (clause : Clause) : List Value :=
  (clause.value.toList ++ clause.values).map Scalar.toValue

def accepts (clause : Clause) (resolved : Value) : Bool :=
  match clause.compare with
  | .isTrue => resolved.same (.boolean true)
  | .isFalse => resolved.same (.boolean false)
  | .includes =>
    match resolved with
    | .list items => items.any fun item => item.isAmong clause.wanted
    | value => value.isAmong clause.wanted
  | .includesAll => clause.wanted.all fun value => value.isAmong resolved.items
  | .excludes =>
    match resolved with
    | .list items => !clause.wanted.any fun value => value.isAmong items
    | value => !value.isAmong clause.wanted

end Clause

/-- Logins, and behind them the name of the current user's variable if one of them is the current
user's. -/
def withCurrentUser (logins : List String) (currentUser : Option String)
    (isMe : String → String → Bool) : Value :=
  let hasMe := currentUser.any fun me => logins.any fun login => isMe login me
  .list (logins.map .text ++ if hasMe then [.text Variables.me] else [])

/-- The value that a clause compares for its field. The author and those who reviewed are the
current user only by the very same login, those who are asked to review in any letter case. -/
def resolve (pr : PullRequest) (field : String) (currentUser : Option String) : Value :=
  if field = "author" then withCurrentUser [pr.author.login] currentUser (· == ·)
  else if field = "user_review" then
    withCurrentUser (pr.requestedReviewers.map (·.login)) currentUser Text.sameAsciiFolded
  else if field = "user_reviewed" then
    withCurrentUser (pr.latestOpinionatedReviews.map (·.author.login)) currentUser (· == ·)
  else pr.field field

/-- Whether a record passes the clauses, given the fields that were resolved for clauses before.
A field is resolved once, and the first clause that fails decides. -/
def passesFrom (pr : PullRequest) (currentUser : Option String) :
    (resolved : Dictionary Value) → List Clause → Bool
  | _, [] => true
  | resolved, clause :: rest =>
    match resolved.find? clause.field with
    | some value => clause.accepts value && passesFrom pr currentUser resolved rest
    | none =>
      let value := resolve pr clause.field currentUser
      clause.accepts value &&
        passesFrom pr currentUser (resolved.insert clause.field value) rest

def passes (pr : PullRequest) (clauses : List Clause) (bindings : Variables) : Bool :=
  passesFrom pr bindings.currentUser? [] clauses

def byClauses (records : List PullRequest) (clauses : List Clause) (bindings : Variables) :
    List PullRequest :=
  records.filter fun pr => passes pr clauses bindings

end PullQuery.Filter
