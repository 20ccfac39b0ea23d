import PullQuery.Proofs.Query.Faults

/-! What a query mentions, and that it reads nothing else: two records that agree on the fields and on
what the functions look at have the same value, and only the order of times depends on the clock. -/
namespace PullQuery.Query

inductive Mention where
  | field (name : String)
  | word (s : String)
  | function (name : String)
  | order
  deriving DecidableEq

def BinaryOp.orders : BinaryOp → Bool
  | less | lessEqual | greater | greaterEqual => true
  | _ => false

namespace Expr

def mentionsAsOperand (e : Expr) (mentions : List Mention) : List Mention :=
  match e with
  | .name s => [.word s]
  | _ => mentions

mutual

def mentions : Expr → List Mention
  | .name s => [.field s]
  | .unary _ e => e.mentions
  | .binary op l r =>
    l.mentions ++ (if op.compares then r.mentionsAsOperand r.mentions else r.mentions) ++
      if op.orders then [.order] else []
  | .list es => mentionsOfOperands es
  | .call function es => mentionsOfOperands es ++ [.function function]
  | .all es => mentionsIn es
  | .integer _ | .float _ | .text _ | .boolean _ | .null => []

def mentionsOfOperands : List Expr → List Mention
  | [] => []
  | e :: rest => e.mentionsAsOperand e.mentions ++ mentionsOfOperands rest

def mentionsIn : List Expr → List Mention
  | [] => []
  | e :: rest => e.mentions ++ mentionsIn rest

end
end Expr

/-- The records are the same, and so is the time, as far as something mentioned depends on them. -/
structure Context.Alike (first second : Context) (mentions : List Mention) : Prop where
  id : first.record.id = second.record.id
  fields : ∀ name field, .field name ∈ mentions → Field.ofNameOrAlias? name = some field →
    field.valueIn first.record = field.valueIn second.record
  reviews : .function Function.reviewDate ∈ mentions →
    first.record.latestOpinionatedReviews = second.record.latestOpinionatedReviews
  timeline : .function Function.requestedAt ∈ mentions →
    first.record.timelineItems = second.record.timelineItems
  clock : .order ∈ mentions → first.now = second.now

namespace Context.Alike
variable {first second : Context} {mentions fewer : List Mention}

private theorem subset (alike : first.Alike second mentions) (among : fewer ⊆ mentions) :
    first.Alike second fewer where
  id := alike.id
  fields name field member := alike.fields name field (among member)
  reviews member := alike.reviews (among member)
  timeline member := alike.timeline (among member)
  clock member := alike.clock (among member)

private theorem field {name : String} (alike : first.Alike second mentions)
    (member : .field name ∈ mentions) :
    first.record.field name = second.record.field name := by
  unfold PullRequest.field
  cases known : Field.ofNameOrAlias? name with
  | none => rfl
  | some field => exact alike.fields name field member known

private theorem call {function : String} (alike : first.Alike second mentions)
    (member : .function function ∈ mentions) (arguments : List Value) :
    Function.call first function arguments = Function.call second function arguments := by
  unfold Function.call
  split
  · rename_i named
    subst named
    have reviewed (state : String) :
        first.record.lastReviewAt state = second.record.lastReviewAt state := by
      rw [PullRequest.lastReviewAt, PullRequest.lastReviewAt, alike.reviews member]
    simp only [reviewed]
  · split
    · rename_i named
      subst named
      have requested : first.record.openRequests = second.record.openRequests := by
        rw [PullRequest.openRequests, PullRequest.openRequests, alike.timeline member]
      rw [requested]
    · rw [alike.id]

end Context.Alike

/-- Only an order of times looks at the clock. -/
theorem comparison_congr {now later : Time.Instant} {op : BinaryOp}
    (same : op.orders = true → now = later) (left right : Value) :
    comparison now op left right = comparison later op left right := by
  cases op with
  | less | lessEqual | greater | greaterEqual => rw [same rfl]
  | _ => rfl

private theorem binaryValue_congr {now later : Time.Instant} {op : BinaryOp}
    (same : op.orders = true → now = later) (left right : Value) :
    binaryValue now op left right = binaryValue later op left right :=
  binaryValueBy_congr (fun _ => funext₂ (comparison_congr same)) left right

private theorem asOperand_congr {first second : Context} {e : Expr}
    (evaluates : first.Alike second e.mentions → eval first e = eval second e)
    (alike : first.Alike second (e.mentionsAsOperand e.mentions)) :
    asOperand e (eval first e) = asOperand e (eval second e) := by
  cases e with
  | name s => rfl
  | _ => exact evaluates alike

mutual

private theorem eval_congr {first second : Context} (e : Expr)
    (alike : first.Alike second e.mentions) :
    eval first e = eval second e := by
  match e with
  | .name s => exact congrArg Except.ok (alike.field (by simp [Expr.mentions]))
  | .unary op e =>
    have inner := eval_congr e alike
    rw [eval, eval, inner]
  | .binary op l r =>
    have left := eval_congr l (alike.subset (by simp [Expr.mentions]))
    have right : (if op.compares then asOperand r (eval first r) else eval first r) =
        if op.compares then asOperand r (eval second r) else eval second r := by
      cases compares : op.compares with
      | true =>
        exact asOperand_congr (eval_congr r) (alike.subset (by simp [Expr.mentions, compares]))
      | false => exact eval_congr r (alike.subset (by simp [Expr.mentions, compares]))
    have clock : op.orders = true → first.now = second.now := fun orders =>
      alike.clock (by simp [Expr.mentions, orders])
    rw [eval_binary, eval_binary, left, right]
    simp only [binaryValue_congr clock]
  | .list es =>
    have inner := evalOperands_congr es alike
    rw [eval, eval, inner]
  | .call function es =>
    have inner := evalOperands_congr es (alike.subset (by simp [Expr.mentions]))
    have called := @alike.call _ _ _ function (by simp [Expr.mentions])
    rw [eval, eval, inner]
    simp only [called]
  | .all es =>
    have inner := evalAll_congr es alike
    rw [eval, eval, inner]
  | .integer _ | .float _ | .text _ | .boolean _ | .null => rfl

theorem evalOperands_congr {first second : Context} (es : List Expr)
    (alike : first.Alike second (Expr.mentionsOfOperands es)) :
    evalOperands first es = evalOperands second es := by
  match es with
  | [] => rfl
  | e :: rest =>
    have value := asOperand_congr (eval_congr e) (alike.subset (by simp [Expr.mentionsOfOperands]))
    have others := evalOperands_congr rest (alike.subset (by simp [Expr.mentionsOfOperands]))
    rw [evalOperands_cons, evalOperands_cons, value, others]

theorem evalAll_congr {first second : Context} (es : List Expr)
    (alike : first.Alike second (Expr.mentionsIn es)) : evalAll first es = evalAll second es := by
  match es with
  | [] => rfl
  | e :: rest =>
    have value := eval_congr e (alike.subset (by simp [Expr.mentionsIn]))
    have others := evalAll_congr rest (alike.subset (by simp [Expr.mentionsIn]))
    rw [evalAll, evalAll, value, others]

end

/-- A query reads no more than it mentions. Two records of one name have the same value if they agree on
the fields it mentions, on the reviews if it asks for the date of a review, and on the timeline if it
asks for the date of a request; and without an order of times the time does not matter. -/
theorem reads_only_what_it_mentions (e : Expr) :
    (∀ (now : Time.Instant) (first second : PullRequest), first.id = second.id →
      (∀ name field, .field name ∈ e.mentions → Field.ofNameOrAlias? name = some field →
        field.valueIn first = field.valueIn second) →
      (.function Function.reviewDate ∈ e.mentions →
        first.latestOpinionatedReviews = second.latestOpinionatedReviews) →
      (.function Function.requestedAt ∈ e.mentions → first.timelineItems = second.timelineItems) →
        eval ⟨first, now⟩ e = eval ⟨second, now⟩ e) ∧
    (.order ∉ e.mentions → ∀ (record : PullRequest) (now later : Time.Instant),
      eval ⟨record, now⟩ e = eval ⟨record, later⟩ e) := by
  constructor
  · intro now first second id fields reviews timeline
    exact eval_congr e ⟨id, fields, reviews, timeline, fun _ => rfl⟩
  · intro unordered record now later
    exact eval_congr e ⟨rfl, fun _ _ _ _ => rfl, fun _ => rfl, fun _ => rfl, (absurd · unordered)⟩

def wordyQuery : Expr :=
  .binary .or (.binary .equal (.name "organization") (.name "title"))
    (.binary .isIn (.call Function.reviewDate [.name "approved"])
      (.list [.name "updatedAt", .name "label"]))

def relabelledSample : PullRequest :=
  { PullRequest.sample with
    title := "y", labels := [], timelineItems := [⟨.requested none, .epoch⟩] }

theorem reads_only_what_it_mentions_wordy :
    wordyQuery.mentions =
        [.field "organization", .word "title", .word "approved", .function Function.reviewDate,
          .word "updatedAt", .word "label"] ∧
      (PullRequest.sample.id = relabelledSample.id ∧
        Field.org.valueIn .sample = Field.org.valueIn relabelledSample ∧
        PullRequest.sample.latestOpinionatedReviews =
          relabelledSample.latestOpinionatedReviews) ∧
      eval ⟨.sample, .epoch⟩ wordyQuery = eval ⟨relabelledSample, .epoch⟩ wordyQuery ∧
      eval ⟨.sample, .epoch⟩ wordyQuery =
        eval ⟨.sample, ⟨86400, 0, by decide, by decide, by decide⟩⟩ wordyQuery := by
  have mentioned : wordyQuery.mentions =
      [.field "organization", .word "title", .word "approved", .function Function.reviewDate,
        .word "updatedAt", .word "label"] := rfl
  have fields : ∀ name field, Mention.field name ∈ wordyQuery.mentions →
      Field.ofNameOrAlias? name = some field →
        field.valueIn .sample = field.valueIn relabelledSample := by
    intro name field member named
    obtain rfl : name = "organization" := by simpa [mentioned] using member
    have org : Field.ofNameOrAlias? "organization" = some .org := rfl
    obtain rfl := Option.some.inj (org.symm.trans named)
    rfl
  have untimed : Mention.function Function.requestedAt ∉ wordyQuery.mentions := by
    simp [mentioned, Function.requestedAt, Function.reviewDate]
  obtain ⟨records, times⟩ := reads_only_what_it_mentions wordyQuery
  exact ⟨mentioned, ⟨rfl, rfl, rfl⟩,
    records .epoch .sample relabelledSample rfl fields (fun _ => rfl) (absurd · untimed),
    times (by simp [mentioned]) .sample .epoch _⟩

end PullQuery.Query
