import PullQuery.Command.Program
import PullQuery.Proofs.Json.Fields

/-! Pull requests are read back from what is written for them: as values, as texts, and from what the
program prints. -/
namespace PullQuery

open PullQuery.Data
open PullQuery.Json (optional? fields? required? defaulted? choice? choiceInEvent? Regular)
open PullQuery.Time

theorem AccountKind.ofText?_text (kind : AccountKind) : ofText? kind.text = some kind := by
  cases kind <;> rfl

theorem PullRequestState.ofText?_text (state : PullRequestState) : ofText? state.text = some state := by
  cases state <;> rfl

theorem CheckStatus.ofText_text (status : CheckStatus) : ofText status.text = status := by
  cases status <;> rfl

theorem ReviewState.ofText?_text (state : ReviewState) : ofText? state.text = some state := by
  cases state <;> rfl

theorem ReviewStatus.ofText?_text (status : ReviewStatus) : ofText? status.text = some status := by
  cases status <;> rfl

/-- A user is read back wherever the kind is read from a plain text too. -/
theorem User.ofJsonWith?_json {choice : Json → Option String}
    (plain : ∀ s, choice (.text s) = some s) (user : User) :
    ofJsonWith? choice user.json = some user := by
  obtain ⟨table, found, lookups⟩ := Json.exists_fields? (show user.json = .ofFields _ from rfl)
    (by simp only [List.map_cons, List.map_nil]; decide) ["login", "avatarUrl", "__typename"]
  simp only [List.forall_mem_cons] at lookups
  obtain ⟨kind, avatar, login, -⟩ := lookups
  have named (kind : AccountKind) :
      (choice (.text kind.text)).bind AccountKind.ofText? = some kind := by
    rw [plain, Option.bind_some, kind.ofText?_text]
  have kinds : defaulted? table "__typename" none
      (optional? fun json => (choice json).bind AccountKind.ofText?) = some user.kind :=
    Json.defaulted?_optional kind named fun _ => nofun
  have avatars : defaulted? table "avatarUrl" none (optional? Json.text?) = some user.avatarUrl :=
    Json.defaulted?_optional avatar (fun _ => rfl) fun _ => nofun
  rw [ofJsonWith?]
  refine Option.bind_eq_some_iff.mpr ⟨table, found, ?_⟩
  simp only [Json.required?_eq, login, avatars, kinds]
  rfl

theorem User.ofJson?_json (user : User) : ofJson? user.json = some user :=
  ofJsonWith?_json (fun _ => rfl) user

theorem User.ofJsonWith?_choiceInEvent (user : User) :
    ofJsonWith? choiceInEvent? user.json = some user := ofJsonWith?_json (fun _ => rfl) user

theorem Label.ofJson?_json (label : Label) : ofJson? label.json = some label := by
  have written : label.json = .ofFields [("color", some (.text label.color)),
    ("id", some (.text label.id)), ("name", some (.text label.name))] := rfl
  obtain ⟨table, found, lookups⟩ := Json.exists_fields? written
    (by simp only [List.map_cons, List.map_nil]; decide) ["id", "name", "color"]
  simp only [List.forall_mem_cons] at lookups
  obtain ⟨color, id, name, -⟩ := lookups
  rw [ofJson?]
  refine Option.bind_eq_some_iff.mpr ⟨table, found, ?_⟩
  simp only [Json.required?_eq, Json.defaulted?, color, id, name]
  rfl

theorem Review.ofJson?_json (review : Review) : ofJson? review.json = some review := by
  obtain ⟨table, found, lookups⟩ := Json.exists_fields? (show review.json = .ofFields _ from rfl)
    (by simp only [List.map_cons, List.map_nil]; decide) ["author", "state", "createdAt"]
  simp only [List.forall_mem_cons] at lookups
  obtain ⟨author, created, state, -⟩ := lookups
  have named : (choice? (.text review.state.text)).bind ReviewState.ofText? = some review.state :=
    review.state.ofText?_text
  have date : defaulted? table "createdAt" none (optional? Json.instant?) = some review.createdAt :=
    Json.defaulted?_optional created Json.instant?_ofInstant fun _ => nofun
  rw [ofJson?]
  refine Option.bind_eq_some_iff.mpr ⟨table, found, ?_⟩
  simp only [Json.required?_eq, author, state, date, Option.bind_some, User.ofJson?_json, named]
  rfl

namespace TimelineItem

theorem event_of_fields {read : Json → Option User} {write : User → Json} (created : Instant)
    {field : String} (order : "createdAt" < field) (back : ∀ user, read (write user) = some user)
    (visible : ∀ user, write user ≠ .null) (event : Option User → TimelineEvent) (o : Option User) :
    (do
      let fields ← fields? [field, "createdAt"] (.object [("createdAt", .ofInstant created),
        (field, .ofOption (o.map write))])
      return {
        event := event (← defaulted? fields field none (optional? read))
        createdAt := ← required? fields "createdAt" Json.instant? }) =
      some (⟨event o, created⟩ : TimelineItem) := by
  have written : Json.object [("createdAt", .ofInstant created), (field, .ofOption (o.map write))] =
    .ofFields [("createdAt", some (.ofInstant created)), (field, some (.ofOption (o.map write)))] :=
      rfl
  obtain ⟨table, found, lookups⟩ := Json.exists_fields? written
    (show ["createdAt", field].Pairwise (· < ·) from List.pairwise_pair.mpr order)
    [field, "createdAt"]
  simp only [List.forall_mem_cons] at lookups
  obtain ⟨date, user, -⟩ := lookups
  have named : defaulted? table field none (optional? read) = some o := by
    rw [Json.defaulted?_of_find? user, Json.optional?_ofOption back visible]
  have dated : required? table "createdAt" Json.instant? = some created := by
    rw [Json.required?_eq, date, Option.bind_some, Json.instant?_ofInstant]
  simp only [found, named, dated, Option.bind_eq_bind, Option.bind_some, Option.pure_def]

theorem reviewAuthor?_json (user : User) :
    reviewAuthor? (.object [("author", user.json)]) = some user := by
  have found : Dictionary.find? [("author", user.json)] "author" = some user.json := rfl
  rw [reviewAuthor?]
  refine Option.bind_eq_some_iff.mpr ⟨_, rfl, ?_⟩
  rw [Json.required?_eq, found, Option.bind_some, User.ofJsonWith?_choiceInEvent]

theorem tagged?_event (name field : String) (created : Instant) (value : Json)
    (other : field ≠ "__typename") :
    tagged? (.object [("__typename", .text name), ("createdAt", .ofInstant created), (field, value)]) =
      some (name, .object [("createdAt", .ofInstant created), (field, value)]) := by
  simp [tagged?, Json.required?_eq, Dictionary.find?, Dictionary.erase, Json.text?, Ne.symm other]

theorem ofJson?_json (item : TimelineItem) : ofJson? item.json = some item := by
  obtain ⟨event, created⟩ := item
  have reviewer := event_of_fields created (show "createdAt" < "requestedReviewer" by decide)
    User.ofJsonWith?_choiceInEvent (fun _ => nofun)
  have author := event_of_fields created (show "createdAt" < "review" by decide)
    reviewAuthor?_json (fun _ => nofun)
  rw [ofJson?]
  cases event with
  | requested user =>
    exact Option.bind_eq_some_iff.mpr ⟨_, tagged?_event _ _ _ _ (by decide), reviewer .requested user⟩
  | requestRemoved user =>
    exact Option.bind_eq_some_iff.mpr
      ⟨_, tagged?_event _ _ _ _ (by decide), reviewer .requestRemoved user⟩
  | dismissed user =>
    exact Option.bind_eq_some_iff.mpr ⟨_, tagged?_event _ _ _ _ (by decide), author .dismissed user⟩

end TimelineItem

theorem PullRequest.ofJson?_json (pr : PullRequest) : ofJson? pr.json = some pr := by
  obtain ⟨table, found, lookups⟩ := Json.exists_fields? (show pr.json = .ofFields _ from rfl)
    (by simp only [List.map_cons, List.map_nil]; decide) fieldOrder
  simp only [List.forall_mem_cons] at lookups
  have text (s : String) : Json.text? (.text s) = some s := rfl
  have boolean (b : Bool) : Json.boolean? (.boolean b) = some b := rfl
  have word (w : Int64) : Json.word? (.integer w.toInt) = some w := Number.word?_toInt w
  have named (s : String) : choice? (.text s) = some s := rfl
  have written {α : Type} (s : String) (read : Json → Option α) :
      optional? read (.text s) = (read (.text s)).map some := rfl
  -- Only the time of fetching may be left out, so what stands in the table depends on it.
  have fetched : defaulted? table "fetchedAt" none (optional? Json.instant?) = some pr.fetchedAt :=
    Json.defaulted?_optional (by simp only [lookups]) Json.instant?_ofInstant fun _ => nofun
  have edited := Json.optional?_ofOption Json.instant?_ofInstant (fun _ => nofun) pr.lastEditedAt
  rw [ofJson?]
  refine Option.bind_eq_some_iff.mpr ⟨table, found, ?_⟩
  rw [fetched]
  simp only [edited, Json.required?_eq, defaulted?, lookups, Option.bind_some, Option.map_some,
    text, boolean, word, named, written, Json.instant?_ofInstant, Json.list?_map User.ofJson?_json,
    Json.list?_map Label.ofJson?_json, Json.list?_map Review.ofJson?_json,
    Json.list?_map TimelineItem.ofJson?_json, User.ofJson?_json, PullRequestState.ofText?_text,
    CheckStatus.ofText_text, ReviewStatus.ofText?_text]
  rfl

section Regular
variable {depth : Nat}

theorem User.regular (shallow : depth + 1 < Json.Draft.depthLimit) (user : User) :
    Regular depth user.json := by
  refine .ofFields shallow (by simp only [List.map_cons, List.map_nil]; decide) ?_
  simp [Regular.text]

theorem Label.regular (shallow : depth + 1 < Json.Draft.depthLimit) (label : Label) :
    Regular depth label.json := by
  refine .object shallow (List.pairwise_map.mp ?_) (by simp [Regular.text])
  simp only [List.map_cons, List.map_nil]
  decide

theorem Review.regular (shallow : depth + 2 < Json.Draft.depthLimit) (review : Review) :
    Regular depth review.json := by
  refine .ofFields (by omega) (by simp only [List.map_cons, List.map_nil]; decide) ?_
  simp [Regular.text, review.author.regular, shallow, Json.ofInstant]

theorem TimelineItem.regular (shallow : depth + 3 < Json.Draft.depthLimit) (item : TimelineItem) :
    Regular depth item.json := by
  have event {name field : String} {value : Json}
      (ordered : ["__typename", "createdAt", field].Pairwise (· < ·))
      (regular : Regular (depth + 1) value) :
      Regular depth (.object [("__typename", .text name), ("createdAt", .ofInstant item.createdAt),
        (field, value)]) :=
    .object (by omega) (List.pairwise_map.mp ordered) (by simp [Regular.text, regular, Json.ofInstant])
  have reviewer (user : User) : Regular (depth + 1) user.json := user.regular (by omega)
  have author (user : User) : Regular (depth + 1) (.object [("author", user.json)]) := by
    have inner : Regular (depth + 2) user.json := user.regular (by omega)
    exact .object (by omega) (List.pairwise_singleton _ _) (by simpa using inner)
  obtain ⟨kind, created⟩ := item
  cases kind with
  | requested user => exact event (by decide) (Json.regular_ofOption reviewer user)
  | requestRemoved user => exact event (by decide) (Json.regular_ofOption reviewer user)
  | dismissed user => exact event (by decide) (Json.regular_ofOption author user)

theorem PullRequest.regular (shallow : depth + 5 < Json.Draft.depthLimit) (pr : PullRequest) :
    Regular depth pr.json := by
  have author : Regular (depth + 1) pr.author.json := pr.author.regular (by omega)
  have labels : Regular (depth + 1) (.list (pr.labels.map Label.json)) :=
    Json.regular_map (by omega) (Label.regular (by omega)) _
  have reviewers : Regular (depth + 1) (.list (pr.requestedReviewers.map User.json)) :=
    Json.regular_map (by omega) (User.regular (by omega)) _
  have reviews : Regular (depth + 1) (.list (pr.latestOpinionatedReviews.map Review.json)) :=
    Json.regular_map (by omega) (Review.regular (by omega)) _
  have items : Regular (depth + 1) (.list (pr.timelineItems.map TimelineItem.json)) :=
    Json.regular_map (by omega) (TimelineItem.regular (by omega)) _
  have instant (t : Instant) : Regular (depth + 1) (.ofInstant t) := .text _
  have edited := Json.regular_ofOption instant pr.lastEditedAt
  refine .ofFields (by omega) (by simp only [List.map_cons, List.map_nil]; decide) ?_
  simp [Regular.text, Regular.boolean, Json.regular_word, author, labels, reviewers, reviews, items,
    instant, edited]

theorem Records.regular (records : List PullRequest) : Regular 0 (Records.json records) :=
  Json.regular_map (by decide) (PullRequest.regular (by decide)) records

end Regular

private theorem Records.read_of_read? {text : String} {records : List PullRequest}
    (whole : Json.read? text = some (json records)) : read text = .ok records := by
  have values : ofJson? (json records) = some records :=
    Json.list?_map PullRequest.ofJson?_json records
  rw [read, whole]
  simp only [values]

/-- Records are read back from their JSON on one line or over several, and from what the program
prints when it shows them, however it lays them out. -/
theorem records_are_read_back (records : List PullRequest) (options : Command.RecordOptions) :
    Records.read (Records.json records).compactText = .ok records ∧
      Records.read (Records.json records).prettyText = .ok records ∧
      Records.read (Command.RecordOptions.print { options with count := false } (.matched records)) =
        .ok records := by
  have regular := Records.regular records
  have bare := regular.read?_text (show ∀ c ∈ [], Json.isBlank c = true by simp)
  have ended := regular.read?_text
    (show ∀ c ∈ ['\n'], Json.isBlank c = true by simp [Json.isBlank])
  simp only [String.ofList_nil, String.append_empty] at bare
  refine ⟨Records.read_of_read? bare.1, Records.read_of_read? bare.2, ?_⟩
  obtain ⟨input, user, bindings, now, pretty, count⟩ := options
  cases pretty with
  | false => exact Records.read_of_read? ended.1
  | true => exact Records.read_of_read? ended.2

end PullQuery
