import PullQuery.Record.Basic
import PullQuery.Value.Basic

/-! The fields of a record that queries and clauses name, the other names for them, and the value
of each. -/
namespace PullQuery

inductive Field where
  | id
  | number
  | title
  | url
  | org
  | repo
  | nameWithOwner
  | labels
  | state
  | statusCheckRollup
  | totalCommentsCount
  | isDraft
  | author
  | requestedReviewers
  | latestOpinionatedReviews
  | createdAt
  | updatedAt
  | lastEditedAt
  | merged
  | calculatedReviewStatus
  | fetchedAt
  deriving DecidableEq, Repr

namespace Field

def every : List Field :=
  [id, number, title, url, org, repo, nameWithOwner, labels, state, statusCheckRollup,
   totalCommentsCount, isDraft, author, requestedReviewers, latestOpinionatedReviews, createdAt,
   updatedAt, lastEditedAt, merged, calculatedReviewStatus, fetchedAt]

def name : Field → String
  | id => "id"
  | number => "number"
  | title => "title"
  | url => "url"
  | org => "org"
  | repo => "repo"
  | nameWithOwner => "nameWithOwner"
  | labels => "labels"
  | state => "state"
  | statusCheckRollup => "statusCheckRollup"
  | totalCommentsCount => "totalCommentsCount"
  | isDraft => "isDraft"
  | author => "author"
  | requestedReviewers => "requestedReviewers"
  | latestOpinionatedReviews => "latestOpinionatedReviews"
  | createdAt => "createdAt"
  | updatedAt => "updatedAt"
  | lastEditedAt => "lastEditedAt"
  | merged => "merged"
  | calculatedReviewStatus => "calculatedReviewStatus"
  | fetchedAt => "fetchedAt"

def aliases : List (String × String) :=
  [("draft", "isDraft"), ("organization", "org"), ("repository", "repo"),
   ("reviewStatus", "calculatedReviewStatus"), ("comments", "totalCommentsCount"),
   ("userReviewRequested", "requestedReviewers"), ("reviewedBy", "latestOpinionatedReviews"),
   ("label", "labels")]

/-- The name that an alias stands for. Any other name stands for itself. -/
def canonicalName (name : String) : String :=
  ((aliases.find? fun entry => entry.1 == name).map (·.2)).getD name

def ofName? (name : String) : Option Field := every.find? fun field => field.name == name

def ofNameOrAlias? (name : String) : Option Field := ofName? (canonicalName name)

def texts (names : List String) : Value := .list (names.map .text)

def ofInstant? (t : Option Time.Instant) : Value := (t.map Value.instant).getD .null

/-- The value of a field. People stand for their logins and labels for their names. -/
def valueIn (pr : PullRequest) : Field → Value
  | id => .text pr.id
  | number => .integer pr.number
  | title => .text pr.title
  | url => .text pr.url
  | org => .text pr.org
  | repo => .text pr.repo
  | nameWithOwner => .text pr.nameWithOwner
  | labels => texts (pr.labels.map (·.name))
  | state => .text pr.state.text
  | statusCheckRollup => .text pr.statusCheckRollup.text
  | totalCommentsCount => .integer pr.totalCommentsCount
  | isDraft => .boolean pr.isDraft
  | author => .text pr.author.login
  | requestedReviewers => texts (pr.requestedReviewers.map (·.login))
  | latestOpinionatedReviews => texts (pr.latestOpinionatedReviews.map (·.author.login))
  | createdAt => .instant pr.createdAt
  | updatedAt => .instant pr.updatedAt
  | lastEditedAt => ofInstant? pr.lastEditedAt
  | merged => .boolean pr.merged
  | calculatedReviewStatus => .text pr.calculatedReviewStatus.text
  | fetchedAt => ofInstant? pr.fetchedAt

end Field

/-- The value of the field that a name stands for. Any other name stands for nothing. -/
def PullRequest.field (pr : PullRequest) (name : String) : Value :=
  ((Field.ofNameOrAlias? name).map (Field.valueIn pr)).getD .null

end PullQuery
