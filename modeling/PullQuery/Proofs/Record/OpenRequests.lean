import PullQuery.Proofs.Data.Dictionary
import PullQuery.Proofs.Data.StableSort
import PullQuery.Proofs.Query.Faults
import PullQuery.Proofs.Time.Order
import Mathlib.Data.List.Induction

/-! Who is still asked for a review. Replaying the events in the order of time leaves a request open
exactly if it is the last event of its login, so the requests depend on nothing but the order of the
events of each login. -/
namespace PullQuery
open PullQuery.Data PullQuery.Time PullQuery.Query

namespace TimelineItem

def login? (item : TimelineItem) : Option String :=
  match item.event with
  | .requested user | .requestRemoved user | .dismissed user => user.map (·.login)

def concerning (login : String) (items : List TimelineItem) : List TimelineItem :=
  items.filter fun item => item.login? = some login

def IsLast (items : List TimelineItem) (item : TimelineItem) : Prop :=
  ∃ before after, items = before ++ item :: after ∧
    (∀ other ∈ before, other.createdAt ≤ item.createdAt) ∧
      ∀ other ∈ after, other.createdAt < item.createdAt

theorem isLast_iff_key {items : List TimelineItem} {item : TimelineItem} :
    IsLast items item ↔ Data.IsLast (fun item => item.createdAt.key) items item := by
  simp only [IsLast, Data.IsLast, Instant.le_iff_key, Instant.lt_iff_key]

private theorem comesFirst_iff_key (a b : TimelineItem) :
    decide (a.createdAt < b.createdAt) = true ↔ a.createdAt.key < b.createdAt.key := by
  rw [decide_eq_true_eq, Instant.lt_iff_key]

def asksAt? (item : TimelineItem) : Option Instant :=
  match item.event with
  | .requested (some _) => some item.createdAt
  | _ => none

private theorem find?_apply (requests : ReviewRequests) (item : TimelineItem) (login : String) :
    (apply requests item).find? login =
      if item.login? = some login then item.asksAt? else requests.find? login := by
  obtain ⟨event, createdAt⟩ := item
  cases event with
  | requested user | requestRemoved user | dismissed user =>
    cases user with
    | none => simp [apply, login?]
    | some user =>
      simp [apply, login?, asksAt?, Dictionary.find?_insert, Dictionary.find?_erase, eq_comm]

private theorem ordered_apply {requests : ReviewRequests} (ordered : requests.Ordered)
    (item : TimelineItem) : Dictionary.Ordered (apply requests item) := by
  unfold apply
  split
  · exact ordered.insert _ _
  · exact ordered.erase _
  · exact ordered.erase _
  · exact ordered

/-- After some events the last one about a login decides. -/
theorem find?_foldl_apply (items : List TimelineItem) (login : String) :
    Dictionary.find? (items.foldl apply []) login =
      (concerning login items).getLast?.bind asksAt? := by
  induction items using List.reverseRecOn with
  | nil => rfl
  | append_singleton before item ih =>
    rw [List.foldl_append, List.foldl_cons, List.foldl_nil, find?_apply, ih]
    simp only [concerning, List.filter_append]
    by_cases concerns : item.login? = some login <;> simp [concerns]

theorem ordered_foldl_apply (items : List TimelineItem) :
    Dictionary.Ordered (items.foldl apply []) := by
  induction items using List.reverseRecOn with
  | nil => exact .nil
  | append_singleton before item ih =>
    rw [List.foldl_append]
    exact ordered_apply ih item

private theorem getLast?_concerning_inOrder {items : List TimelineItem} {login : String}
    {item : TimelineItem} :
    (concerning login (inOrder items)).getLast? = some item ↔
      IsLast (concerning login items) item := by
  rw [concerning, inOrder, filter_stableSort comesFirst_iff_key,
    getLast?_stableSort comesFirst_iff_key, isLast_iff_key, concerning]

theorem IsLast.congr {items others : List TimelineItem} {item : TimelineItem}
    (last : IsLast items item)
    (alike : ∀ t, items.filter (·.createdAt = t) = others.filter (·.createdAt = t)) :
    IsLast others item := by
  refine isLast_iff_key.mpr ((isLast_iff_key.mp last).congr fun other => ?_)
  simpa only [Instant.key_inj] using alike other.createdAt

end TimelineItem

open TimelineItem

/-- The last event about a login is a request of that time. -/
def PullRequest.Awaits (pr : PullRequest) (login : String) (t : Instant) : Prop :=
  ∃ item, IsLast (concerning login pr.timelineItems) item ∧
    (∃ user, item.event = .requested (some user)) ∧ item.createdAt = t

theorem TimelineItem.asksAt?_eq_some {item : TimelineItem} {t : Instant} :
    item.asksAt? = some t ↔
      (∃ user, item.event = .requested (some user)) ∧ item.createdAt = t := by
  obtain ⟨event, createdAt⟩ := item
  cases event with
  | requested user => cases user <;> simp [asksAt?]
  | requestRemoved | dismissed => simp [asksAt?]

private theorem find?_openRequests {pr : PullRequest} {login : String} {t : Instant} :
    pr.openRequests.find? login = some t ↔ pr.Awaits login t := by
  rw [PullRequest.openRequests, find?_foldl_apply, Option.bind_eq_some_iff]
  simp only [getLast?_concerning_inOrder, asksAt?_eq_some]
  rfl

private theorem mem_openRequests {pr : PullRequest} {login : String} {t : Instant} :
    (login, t) ∈ pr.openRequests ↔ pr.Awaits login t :=
  (ordered_foldl_apply _).mem_iff.trans find?_openRequests

def RequestChoice.Prefers : RequestChoice → Instant → Instant → Prop
  | .newest, t, other => other ≤ t
  | .latest, t, other => t ≤ other

namespace ReviewRequests
variable {requests : ReviewRequests} {mode : RequestChoice}

theorem requestedAt?_eq_some {t : Instant} :
    requests.requestedAt? mode = some t ↔
      (∃ login, (login, t) ∈ requests) ∧
        ∀ other login, (login, other) ∈ requests → mode.Prefers t other := by
  cases mode with
  | newest => simp [requestedAt?, Instant.latest?_eq_some_iff, RequestChoice.Prefers]
  | latest => simp [requestedAt?, Instant.earliest?_eq_some_iff, RequestChoice.Prefers]

theorem requestedAt?_eq_none : requests.requestedAt? mode = none ↔ requests = [] := by
  cases mode with
  | newest => simp [requestedAt?, Instant.latest?_eq_none_iff]
  | latest => simp [requestedAt?, Instant.earliest?_eq_none_iff]

end ReviewRequests

private theorem call_requestedAt_openRequests (pr : PullRequest) (now : Instant)
    {arguments : List Value} {text : String} {mode : RequestChoice}
    (taken : Function.textArgument Function.requestedAt "newest" arguments = .ok text)
    (known : RequestChoice.ofText? text = some mode) :
    ((∀ login t, ¬ pr.Awaits login t) ∧
        Function.call ⟨pr, now⟩ Function.requestedAt arguments = .ok .null) ∨
      ∃ t, Function.call ⟨pr, now⟩ Function.requestedAt arguments = .ok (.instant t) ∧
        (∃ login, pr.Awaits login t) ∧
          ∀ other login, pr.Awaits login other → mode.Prefers t other := by
  rw [Function.call_requestedAt taken, known]
  simp only [← mem_openRequests]
  cases found : pr.openRequests.requestedAt? mode with
  | none =>
    refine .inl ⟨?_, rfl⟩
    simp [ReviewRequests.requestedAt?_eq_none.mp found]
  | some t => exact .inr ⟨t, rfl, ReviewRequests.requestedAt?_eq_some.mp found⟩

private theorem openRequests_congr {pr : PullRequest} {items : List TimelineItem}
    (alike : ∀ login t, (concerning login items).filter (·.createdAt = t) =
      (concerning login pr.timelineItems).filter (·.createdAt = t)) :
    { pr with timelineItems := items }.openRequests = pr.openRequests := by
  have same (login : String) (t : Instant) :
      { pr with timelineItems := items }.Awaits login t ↔ pr.Awaits login t := by
    constructor
    · rintro ⟨item, last, request⟩
      exact ⟨item, last.congr (alike login), request⟩
    · rintro ⟨item, last, request⟩
      exact ⟨item, last.congr fun t => (alike login t).symm, request⟩
  refine (ordered_foldl_apply _).ext (ordered_foldl_apply _) fun login => Option.ext fun t => ?_
  exact find?_openRequests.trans ((same login t).trans find?_openRequests.symm)

/-- A review is awaited from those whose last event is a request, since that request. What the query
function gives is the latest or the earliest of these times, or nothing, and none of this depends on
more of the order of the events than which of one login's events at one time come first. -/
theorem requests_are_last_events (pr : PullRequest) :
    (∀ login t, pr.openRequests.find? login = some t ↔ pr.Awaits login t) ∧
      (∀ now arguments text mode,
        Function.textArgument Function.requestedAt "newest" arguments = .ok text →
        RequestChoice.ofText? text = some mode →
        ((∀ login t, ¬ pr.Awaits login t) ∧
            Function.call ⟨pr, now⟩ Function.requestedAt arguments = .ok .null) ∨
          ∃ t, Function.call ⟨pr, now⟩ Function.requestedAt arguments = .ok (.instant t) ∧
            (∃ login, pr.Awaits login t) ∧
              ∀ other login, pr.Awaits login other → mode.Prefers t other) ∧
      ∀ items, (∀ login t, (concerning login items).filter (·.createdAt = t) =
          (concerning login pr.timelineItems).filter (·.createdAt = t)) →
        { pr with timelineItems := items }.openRequests = pr.openRequests ∧
          ∀ now arguments,
            Function.call ⟨{ pr with timelineItems := items }, now⟩ Function.requestedAt arguments =
              Function.call ⟨pr, now⟩ Function.requestedAt arguments := by
  refine ⟨fun login t => find?_openRequests, fun now arguments text mode taken known => ?_,
    fun items alike => ?_⟩
  · exact call_requestedAt_openRequests pr now taken known
  · have same := openRequests_congr alike
    refine ⟨same, fun now arguments => ?_⟩
    have other : Function.requestedAt ≠ Function.reviewDate := by decide
    simp only [Function.call, if_neg other, same]

def Time.Instant.firstMinute (second : Nat) : Instant := (Instant.make? second 0).getD .epoch

/-- A request and its end at one time in either order, a review dismissed before its request in the
list, a request renewed, and a team. -/
def PullRequest.requestedOften : PullRequest :=
  let item (event : Option User → TimelineEvent) (login : String) (second : Nat) : TimelineItem :=
    ⟨event (some ⟨login, none, none⟩), .firstMinute second⟩
  { PullRequest.sample with
    timelineItems := [item .dismissed "bob" 3, item .requested "alice" 2, item .requested "bob" 1,
      item .requestRemoved "alice" 2, item .requestRemoved "dave" 4, item .requested "dave" 4,
      item .requested "carol" 5, ⟨.requested none, .firstMinute 6⟩, item .requested "carol" 1] }

theorem requests_are_last_events_moved_event :
    let pr := PullRequest.requestedOften
    let items := pr.timelineItems.drop 1 ++ pr.timelineItems.take 1
    (Function.textArgument Function.requestedAt "newest" [.text "Latest"] = .ok "Latest" ∧
        RequestChoice.ofText? "Latest" = some .latest ∧
        ∀ login t, (concerning login items).filter (·.createdAt = t) =
          (concerning login pr.timelineItems).filter (·.createdAt = t)) ∧
      pr.Awaits "dave" (.firstMinute 4) ∧ ¬ pr.Awaits "alice" (.firstMinute 2) ∧
        (∃ t, Function.call ⟨pr, .epoch⟩ Function.requestedAt [.text "Latest"] = .ok (.instant t) ∧
          (∃ login, pr.Awaits login t) ∧ ∀ other login, pr.Awaits login other → t ≤ other) ∧
          { pr with timelineItems := items }.openRequests = pr.openRequests := by
  intro pr items
  have taken : Function.textArgument Function.requestedAt "newest" [.text "Latest"] = .ok "Latest" :=
    rfl
  have known : RequestChoice.ofText? "Latest" = some .latest := by decide
  have alike (login : String) (t : Instant) : (concerning login items).filter (·.createdAt = t) =
      (concerning login pr.timelineItems).filter (·.createdAt = t) := by
    by_cases first : login = "bob" ∧ t = .firstMinute 3
    · obtain ⟨rfl, rfl⟩ := first
      decide
    · have none : (concerning login (pr.timelineItems.take 1)).filter (·.createdAt = t) = [] := by
        simp only [concerning, List.filter_filter, List.filter_eq_nil_iff]
        simp [pr, PullRequest.requestedOften, login?]
        tauto
      conv_rhs => rw [← List.take_append_drop 1 pr.timelineItems]
      simp only [items, concerning, List.filter_append] at none ⊢
      rw [none, List.append_nil, List.nil_append]
  obtain ⟨outstanding, calls, reordered⟩ := requests_are_last_events pr
  have dave : pr.Awaits "dave" (.firstMinute 4) := (outstanding _ _).mp (by decide)
  have alice : ¬ pr.Awaits "alice" (.firstMinute 2) := fun awaits => by
    have found := (outstanding _ _).mpr awaits
    revert found
    decide
  refine ⟨⟨taken, known, alike⟩, dave, alice, ?_, (reordered items alike).1⟩
  exact (calls .epoch _ _ _ taken known).resolve_left fun none => none.1 _ _ dave

end PullQuery
