import PullQuery.Query.Function
import PullQuery.Record.Field
import PullQuery.Text.LowerCase

/-! The documentation that the command line shows: an overview and one text for each topic. -/
namespace PullQuery.Command

inductive Topic where
  | fields
  | operators
  | durations
  | functions
  | filters
  | bindings
  deriving DecidableEq, Repr

namespace Topic

/-- The topic of a name, in any letter case and with hyphens for underscores. -/
def ofName? (name : String) : Option Topic :=
  let folded := String.ofList ((Text.lower name).toList.map fun c => if c = '-' then '_' else c)
  match folded with
  | "fields" | "field" | "aliases" => some fields
  | "operators" | "ops" => some operators
  | "durations" | "duration" | "time" => some durations
  | "functions" | "function" | "fns" => some functions
  | "filters" | "filter" | "clauses" | "saved" => some filters
  | "variables" | "variable" | "vars" => some bindings
  | _ => none

def overview : String :=
"PRQ DOCUMENTATION

prq filters pull-request records with either a query string or a saved
filter document. Records are read as JSON, matching records are written
back as JSON in input order.

DOCUMENTATION TOPICS

  fields            Record fields and their aliases
  operators         Comparison, membership, logical and arithmetic operators
  durations         Relative time literals such as -7d and 2h
  functions         getReviewDate and getReviewRequestedAt
  filters           Structured filter lists and saved filter documents
  variables         @me and user-defined variables

QUICK REFERENCE

  state = OPEN                       Equality, case-insensitive
  labels IN (bug, security)          Any label in the set
  createdAt >= -7d                   Created in the last week
  author = @me draft = false         Juxtaposition is AND
  title ~ \"fix\" OR comments > 10     Substring match, disjunction

Run 'prq doc <topic>' for detailed documentation.
"

def padded (width : Nat) (s : String) : String :=
  s ++ String.ofList (List.replicate (width - s.length) ' ')

def fieldLines : String :=
  String.join (Field.every.map fun field => "  " ++ field.name ++ "\n")

def aliasLines : String :=
  String.join (Field.aliases.map fun (name, target) => "  " ++ padded 22 name ++ target ++ "\n")

def fieldNotes : String :=
"
NOTES
  - Field names are case-sensitive; values compare case-insensitively.
  - labels, author, requestedReviewers and latestOpinionatedReviews
    project to lists of names or logins.
  - A single-element list compares like its element.
  - Unknown names evaluate to null; a bare word on the right-hand side
    of an operator is a string.
"

def functionLines : String :=
  String.join (Query.Function.names.map fun name => "  " ++ name ++ "\n")

def functionNotes : String :=
"
getReviewDate(state = APPROVED)
    Latest time a review in the given state was submitted. Records
    without such a review report the Unix epoch.

    Example:
      getReviewDate(APPROVED) >= -2d

getReviewRequestedAt(mode = newest)
    Time an outstanding review request was made. Requests removed later
    in the timeline, or whose review was dismissed, are not outstanding.
    Mode newest reports the most recent request, mode latest the
    earliest one still outstanding. Any other mode is an error. No
    outstanding request evaluates to null.

    Example:
      getReviewRequestedAt(latest) <= -3d
"

def operatorText : String :=
"OPERATORS - Listed from loosest to tightest binding

LOGICAL
  a OR b            Either side holds
  a AND b           Both sides hold
  a b               Juxtaposition, same as AND

MEMBERSHIP
  x IN (a, b)       Any element of x is in the set
  x NOT IN (a, b)   No element of x is in the set

COMPARISON
  =  ==             Equal; a list on the left means membership
  != <>             Not equal
  ~                 Case-insensitive substring
  < > <= >=         Time comparison; numbers are seconds from now

ARITHMETIC
  + -               Addition and subtraction
  -x +x             Unary sign

GROUPING
  ( expr )          Parentheses group
  (a, b, c)         A comma-separated group is a list
"

def durationText : String :=
"DURATIONS - Relative time literals

A number followed by a unit is rewritten to seconds before parsing.
Ordering comparisons read numbers as now + N seconds, so negative
durations point into the past.

UNITS
  y  year  years                    31536000
  mo month months                   2592000
  w  week  weeks                    604800
  d  day   days                     86400
  h  hr    hrs   hour  hours        3600
  m  min   mins  minute minutes     60
  s  sec   secs  second seconds     1

EXAMPLES
  createdAt >= -7d                  Created within the last seven days
  updatedAt < -1.5h                 Not touched for ninety minutes
  \"7d\"                              Quoted text is left alone
"

def filterText : String :=
"FILTERS - Structured filter lists

A filter list is a JSON array of clauses; a record matches when every
clause holds.

  \x7b \"type\": \"label\", \"compare\": \"includes\", \"values\": [\"bug\"] \x7d

COMPARATORS
  true              Field is literally true
  false             Field is literally false
  includes          At least one value is present
  includes all      Every value is present
  excludes          No value is present

SPECIAL TYPES
  author            Author login, plus @me when it is the current user
  user_review       Requested reviewers, plus @me
  user_reviewed     Reviewers with an opinionated review, plus @me

SAVED FILTERS
  \x7b \"id\": \"...\", \"name\": \"...\", \"filters\": [ ... ], \"query\": \"...\" \x7d

  When filters is null the query string is used instead.
  Run with: prq apply --filter saved.json
"

def variableText : String :=
"VARIABLES - Query substitution

Variables are replaced in the query text before anything else happens.
Each occurrence becomes a quoted string, whether written bare or quoted.

  @me               The current user (--user or PRQ_USER)
  --var NAME=VALUE  Any other variable; may be repeated

EXAMPLES
  prq filter 'author = @me' --user octocat
  prq filter 'repo = $repo' --var '$repo=api'
"

def text : Topic → String
  | fields =>
    "FIELDS - Record fields usable in queries\n\nFIELDS\n" ++ fieldLines ++ "\nALIASES\n"
      ++ aliasLines ++ fieldNotes
  | operators => operatorText
  | durations => durationText
  | functions => "FUNCTIONS - Built-in functions\n\nAVAILABLE\n" ++ functionLines ++ functionNotes
  | filters => filterText
  | bindings => variableText

end Topic
end PullQuery.Command
