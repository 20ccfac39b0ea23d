import PullQuery.Data.Ordered
import PullQuery.Record.Basic
import PullQuery.Text.Parts

/-! Dates that are worked out from the reviews of a record and from what happened to its review
requests. -/
namespace PullQuery

open PullQuery.Data
open PullQuery.Text
open PullQuery.Time

/-- The requests for review that are still open: by login, when each was made. -/
abbrev ReviewRequests := Dictionary Instant

/-- The requests after an event. A request is made or renewed; it ends when it is taken back or
when the review is dismissed. An event without a login changes nothing. -/
def TimelineItem.apply (requests : ReviewRequests) (item : TimelineItem) : ReviewRequests :=
  match item.event with
  | .requested (some user) => requests.insert user.login item.createdAt
  | .requestRemoved (some user) | .dismissed (some user) => requests.erase user.login
  | _ => requests

/-- The events in the order of time, those at one time in their given order. -/
def TimelineItem.inOrder (timeline : List TimelineItem) : List TimelineItem :=
  stableSort (fun a b => decide (a.createdAt < b.createdAt)) timeline

namespace PullRequest

def openRequests (pr : PullRequest) : ReviewRequests :=
  (TimelineItem.inOrder pr.timelineItems).foldl TimelineItem.apply []

/-- When the latest review in a state was given, the start of 1970 if there is none. The state is
named in letters of any case. -/
def lastReviewAt (pr : PullRequest) (state : String) : Instant :=
  let dates := (pr.latestOpinionatedReviews.filter fun review =>
    sameAsciiFolded review.state.text state).filterMap (·.createdAt)
  (Instant.latest? dates).getD .epoch

end PullRequest

/-- Which of the open requests is asked for: the one made last or the one made first. -/
inductive RequestChoice where
  | newest
  | latest
  deriving DecidableEq, Repr

def RequestChoice.ofText? (s : String) : Option RequestChoice :=
  if sameAsciiFolded s "newest" then some newest
  else if sameAsciiFolded s "latest" then some latest
  else none

def ReviewRequests.requestedAt? (requests : ReviewRequests) (mode : RequestChoice) :
    Option Instant :=
  let dates := requests.map fun request => request.2
  match mode with
  | .newest => Instant.latest? dates
  | .latest => Instant.earliest? dates

end PullQuery
