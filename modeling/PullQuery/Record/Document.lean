import PullQuery.Json.Decode
import PullQuery.Record.Basic
import PullQuery.Time.Text

/-! Pull requests as JSON: written with the members of every object in alphabetical order, read
from a list of records or from one. -/
namespace PullQuery

open PullQuery.Time
open PullQuery.Json (DocumentFault optional? list? fields? required? defaulted? choice?
  choiceInEvent?)

def Json.ofFields (fields : List (String × Option Json)) : Json :=
  .object (fields.filterMap fun field => field.2.map fun value => (field.1, value))

def Json.ofOption (json : Option Json) : Json := json.getD .null

def Json.ofInstant (t : Instant) : Json := .text t.documentText

namespace AccountKind

def ofText? : String → Option AccountKind
  | "User" => some user
  | "Bot" => some bot
  | _ => none

end AccountKind

namespace PullRequestState

def ofText? : String → Option PullRequestState
  | "OPEN" => some active
  | "CLOSED" => some closed
  | "MERGED" => some merged
  | _ => none

end PullRequestState

namespace CheckStatus

def ofText : String → CheckStatus
  | "SUCCESS" => success
  | "PENDING" => pending
  | "FAILURE" => failure
  | "ERROR" => error
  | "EXPECTED" => expected
  | _ => unknown

end CheckStatus

namespace ReviewState

def ofText? : String → Option ReviewState
  | "APPROVED" => some approved
  | "CHANGES_REQUESTED" => some changesRequested
  | "COMMENTED" => some commented
  | "DISMISSED" => some dismissed
  | "PENDING" => some pending
  | _ => none

end ReviewState

namespace ReviewStatus

def ofText? : String → Option ReviewStatus
  | "approved" => some approved
  | "changes_requested" => some changesRequested
  | "pending" => some pending
  | _ => none

end ReviewStatus

namespace User

def json (user : User) : Json :=
  .ofFields [("__typename", user.kind.map fun kind => .text kind.text),
    ("avatarUrl", user.avatarUrl.map .text), ("login", some (.text user.login))]

def ofJsonWith? (choice : Json → Option String) (json : Json) : Option User := do
  let fields ← fields? ["login", "avatarUrl", "__typename"] json
  return {
    login := ← required? fields "login" Json.text?
    avatarUrl := ← defaulted? fields "avatarUrl" none (optional? Json.text?)
    kind := ← defaulted? fields "__typename" none
      (optional? fun json => (choice json).bind AccountKind.ofText?) }

def ofJson? : Json → Option User := ofJsonWith? choice?

end User

namespace Label

def json (label : Label) : Json :=
  .object [("color", .text label.color), ("id", .text label.id), ("name", .text label.name)]

def ofJson? (json : Json) : Option Label := do
  let fields ← fields? ["id", "name", "color"] json
  return {
    id := ← defaulted? fields "id" "" Json.text?
    name := ← required? fields "name" Json.text?
    color := ← defaulted? fields "color" "" Json.text? }

end Label

namespace Review

def json (review : Review) : Json :=
  .ofFields [("author", some review.author.json), ("createdAt", review.createdAt.map .ofInstant),
    ("state", some (.text review.state.text))]

def ofJson? (json : Json) : Option Review := do
  let fields ← fields? ["author", "state", "createdAt"] json
  return {
    author := ← required? fields "author" User.ofJson?
    state := ← required? fields "state" fun json => (choice? json).bind ReviewState.ofText?
    createdAt := ← defaulted? fields "createdAt" none (optional? Json.instant?) }

end Review

namespace TimelineItem

def json (item : TimelineItem) : Json :=
  let (name, field, value) : String × String × Option Json :=
    match item.event with
    | .requested reviewer =>
      ("ReviewRequestedEvent", "requestedReviewer", reviewer.map User.json)
    | .requestRemoved reviewer =>
      ("ReviewRequestRemovedEvent", "requestedReviewer", reviewer.map User.json)
    | .dismissed author =>
      ("ReviewDismissedEvent", "review", author.map fun user => .object [("author", user.json)])
  .object [("__typename", .text name), ("createdAt", .ofInstant item.createdAt),
    (field, .ofOption value)]

def reviewer? : Json → Option User := User.ofJsonWith? choiceInEvent?

def reviewAuthor? (json : Json) : Option User := do
  required? (← fields? ["author"] json) "author" (User.ofJsonWith? choiceInEvent?)

/-- The name of an event, and its object or list without the name. -/
def tagged? : Json → Option (String × Json)
  | .object members => do
    let name ← required? members "__typename" Json.text?
    return (name, .object (Data.Dictionary.erase members "__typename"))
  | .list (.text name :: items) => some (name, .list items)
  | _ => none

def ofJson? (json : Json) : Option TimelineItem := do
  let (name, content) ← tagged? json
  let readEvent (field : String) (read : Json → Option User) (event : Option User → TimelineEvent) :
      Option TimelineItem := do
    let fields ← fields? [field, "createdAt"] content
    return {
      event := event (← defaulted? fields field none (optional? read))
      createdAt := ← required? fields "createdAt" Json.instant? }
  match name with
  | "ReviewRequestedEvent" => readEvent "requestedReviewer" reviewer? .requested
  | "ReviewRequestRemovedEvent" => readEvent "requestedReviewer" reviewer? .requestRemoved
  | "ReviewDismissedEvent" => readEvent "review" reviewAuthor? .dismissed
  | _ => none

end TimelineItem

namespace PullRequest

def json (pr : PullRequest) : Json :=
  .ofFields [
    ("author", some pr.author.json),
    ("calculatedReviewStatus", some (.text pr.calculatedReviewStatus.text)),
    ("createdAt", some (.ofInstant pr.createdAt)),
    ("fetchedAt", pr.fetchedAt.map .ofInstant),
    ("id", some (.text pr.id)),
    ("isDraft", some (.boolean pr.isDraft)),
    ("labels", some (.list (pr.labels.map Label.json))),
    ("lastEditedAt", some (.ofOption (pr.lastEditedAt.map .ofInstant))),
    ("latestOpinionatedReviews", some (.list (pr.latestOpinionatedReviews.map Review.json))),
    ("merged", some (.boolean pr.merged)),
    ("nameWithOwner", some (.text pr.nameWithOwner)),
    ("number", some (.integer pr.number.toInt)),
    ("org", some (.text pr.org)),
    ("repo", some (.text pr.repo)),
    ("requestedReviewers", some (.list (pr.requestedReviewers.map User.json))),
    ("state", some (.text pr.state.text)),
    ("statusCheckRollup", some (.text pr.statusCheckRollup.text)),
    ("timelineItems", some (.list (pr.timelineItems.map TimelineItem.json))),
    ("title", some (.text pr.title)),
    ("totalCommentsCount", some (.integer pr.totalCommentsCount.toInt)),
    ("updatedAt", some (.ofInstant pr.updatedAt)),
    ("url", some (.text pr.url))]

def fieldOrder : List String :=
  ["id", "number", "title", "url", "org", "repo", "nameWithOwner", "labels", "state",
   "statusCheckRollup", "totalCommentsCount", "isDraft", "author", "requestedReviewers",
   "latestOpinionatedReviews", "timelineItems", "createdAt", "updatedAt", "lastEditedAt", "merged",
   "calculatedReviewStatus", "fetchedAt"]

def ofJson? (json : Json) : Option PullRequest := do
  let fields ← fields? fieldOrder json
  return {
    id := ← required? fields "id" Json.text?
    number := ← required? fields "number" Json.word?
    title := ← required? fields "title" Json.text?
    url := ← defaulted? fields "url" "" Json.text?
    org := ← required? fields "org" Json.text?
    repo := ← required? fields "repo" Json.text?
    nameWithOwner := ← defaulted? fields "nameWithOwner" "" Json.text?
    labels := ← defaulted? fields "labels" [] (list? Label.ofJson?)
    state := ← required? fields "state" fun json => (choice? json).bind PullRequestState.ofText?
    statusCheckRollup := (← defaulted? fields "statusCheckRollup" none
      (optional? fun json => (choice? json).map CheckStatus.ofText)).getD .unknown
    totalCommentsCount := ← defaulted? fields "totalCommentsCount" 0 Json.word?
    isDraft := ← defaulted? fields "isDraft" false Json.boolean?
    author := ← required? fields "author" User.ofJson?
    requestedReviewers := ← defaulted? fields "requestedReviewers" [] (list? User.ofJson?)
    latestOpinionatedReviews := ← defaulted? fields "latestOpinionatedReviews" []
      (list? Review.ofJson?)
    timelineItems := ← defaulted? fields "timelineItems" [] (list? TimelineItem.ofJson?)
    createdAt := ← required? fields "createdAt" Json.instant?
    updatedAt := ← required? fields "updatedAt" Json.instant?
    lastEditedAt := ← defaulted? fields "lastEditedAt" none (optional? Json.instant?)
    merged := ← defaulted? fields "merged" false Json.boolean?
    calculatedReviewStatus := (← defaulted? fields "calculatedReviewStatus" none
      (optional? fun json => (choice? json).bind ReviewStatus.ofText?)).getD .pending
    fetchedAt := ← defaulted? fields "fetchedAt" none (optional? Json.instant?) }

end PullRequest

namespace Records

def ofJson? : Json → Option (List PullRequest)
  | .list items => items.mapM PullRequest.ofJson?
  | json => (PullRequest.ofJson? json).map fun pr => [pr]

def read (text : String) : Except DocumentFault (List PullRequest) :=
  match Json.read? text with
  | none => .error .notJson
  | some json =>
    match ofJson? json with
    | none => .error .misfit
    | some records => .ok records

def json (records : List PullRequest) : Json := .list (records.map PullRequest.json)

end Records
end PullQuery
