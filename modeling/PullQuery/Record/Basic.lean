import PullQuery.Time.Instant

/-! Pull requests as they are stored: who opened them, who reviews them, and what happened to
their review requests. -/
namespace PullQuery

open PullQuery.Time

inductive AccountKind where
  | user
  | bot
  deriving DecidableEq, Repr

structure User where
  login : String
  avatarUrl : Option String
  kind : Option AccountKind
  deriving DecidableEq

structure Label where
  id : String
  name : String
  color : String
  deriving DecidableEq

inductive PullRequestState where
  | active
  | closed
  | merged
  deriving DecidableEq, Repr

inductive CheckStatus where
  | success
  | pending
  | failure
  | error
  | expected
  | unknown
  deriving DecidableEq, Repr

inductive ReviewState where
  | approved
  | changesRequested
  | commented
  | dismissed
  | pending
  deriving DecidableEq, Repr

inductive ReviewStatus where
  | approved
  | changesRequested
  | pending
  deriving DecidableEq, Repr

structure Review where
  author : User
  state : ReviewState
  createdAt : Option Instant
  deriving DecidableEq

/-- What happened to a request for review. Teams and deleted accounts leave no user. -/
inductive TimelineEvent where
  | requested (reviewer : Option User)
  | requestRemoved (reviewer : Option User)
  | dismissed (reviewAuthor : Option User)
  deriving DecidableEq

structure TimelineItem where
  event : TimelineEvent
  createdAt : Instant
  deriving DecidableEq

structure PullRequest where
  id : String
  number : Int64
  title : String
  url : String
  org : String
  repo : String
  nameWithOwner : String
  labels : List Label
  state : PullRequestState
  statusCheckRollup : CheckStatus
  totalCommentsCount : Int64
  isDraft : Bool
  author : User
  requestedReviewers : List User
  latestOpinionatedReviews : List Review
  timelineItems : List TimelineItem
  createdAt : Instant
  updatedAt : Instant
  lastEditedAt : Option Instant
  merged : Bool
  calculatedReviewStatus : ReviewStatus
  fetchedAt : Option Instant
  deriving DecidableEq

def AccountKind.text : AccountKind → String
  | user => "User"
  | bot => "Bot"

def PullRequestState.text : PullRequestState → String
  | active => "OPEN"
  | closed => "CLOSED"
  | merged => "MERGED"

def CheckStatus.text : CheckStatus → String
  | success => "SUCCESS"
  | pending => "PENDING"
  | failure => "FAILURE"
  | error => "ERROR"
  | expected => "EXPECTED"
  | unknown => "UNKNOWN"

def ReviewState.text : ReviewState → String
  | approved => "APPROVED"
  | changesRequested => "CHANGES_REQUESTED"
  | commented => "COMMENTED"
  | dismissed => "DISMISSED"
  | pending => "PENDING"

def ReviewStatus.text : ReviewStatus → String
  | approved => "approved"
  | changesRequested => "changes_requested"
  | pending => "pending"

structure ReviewerLine where
  name : String
  state : String
  title : String
  deriving DecidableEq, Repr

def Review.line (review : Review) : ReviewerLine where
  name := review.author.login
  state := review.state.text
  title := if review.state = .changesRequested then "Changes requested" else "Approved"

/-- Those who reviewed, then those whose review is still asked for. -/
def PullRequest.reviewers (pr : PullRequest) : List ReviewerLine :=
  pr.latestOpinionatedReviews.map Review.line ++
    pr.requestedReviewers.map fun user => ⟨user.login, "PENDING", "Review required"⟩

end PullQuery
