import PullQuery.Filter.Saved
import PullQuery.Proofs.Data.FirstFault

/-! What a query selects from records: the first record without a value stops it, and if all have one
then those stay whose value counts as true. -/
namespace PullQuery

def PullRequest.sample : PullRequest where
  id := "PR_1"
  number := 2
  title := "x"
  url := ""
  org := "umbrella"
  repo := "web"
  nameWithOwner := "umbrella/web"
  labels := [⟨"L_1", "docs", "ffffff"⟩]
  state := .active
  statusCheckRollup := .unknown
  totalCommentsCount := 0
  isDraft := false
  author := ⟨"alice", none, none⟩
  requestedReviewers := []
  latestOpinionatedReviews := []
  timelineItems := []
  createdAt := .epoch
  updatedAt := .epoch
  lastEditedAt := none
  merged := false
  calculatedReviewStatus := .pending
  fetchedAt := none

namespace Query
open PullQuery.Data

def accepts (context : Context) (e : Expr) : Bool :=
  match eval context e with
  | .ok value => value.isTruthy
  | .error _ => false

theorem accepts_of_eval {context : Context} {e : Expr} {value : Value}
    (evaluates : eval context e = .ok value) : accepts context e = value.isTruthy := by
  rw [accepts, evaluates]

theorem eval_binary (context : Context) (op : BinaryOp) (l r : Expr) :
    eval context (.binary op l r) =
      eval context l >>= fun left =>
        (if op.compares then asOperand r (eval context r) else eval context r) >>= fun right =>
          binaryValue context.now op left right := by
  rw [eval]
  cases op.compares <;> rfl

theorem binaryValueBy_congr {compare other : BinaryOp → Value → Value → Bool} {op : BinaryOp}
    (agree : op.compares = true → compare op = other op) (left right : Value) :
    binaryValueBy compare op left right = binaryValueBy other op left right := by
  cases op <;> first | rfl | simp only [binaryValueBy, agree rfl]

private theorem holds_ok {context : Context} {e : Expr} {kept : Bool} :
    holds context e = .ok kept ↔
      (∃ value, eval context e = .ok value) ∧ accepts context e = kept := by
  rw [holds, accepts]
  cases eval context e <;> simp [Except.map]

private theorem holds_error {context : Context} {e : Expr} {err : EvalError} :
    holds context e = .error err ↔ eval context e = .error err := by
  rw [holds]
  cases eval context e <;> simp [Except.map]

private theorem select_cons (e : Expr) (now : Time.Instant) (pr : PullRequest)
    (rest : List PullRequest) :
    select e now (pr :: rest) =
      holds ⟨pr, now⟩ e >>= fun kept => select e now rest >>= fun others =>
        .ok (if kept then pr :: others else others) := rfl

theorem decides_select (e : Expr) (now : Time.Instant) (records : List PullRequest) :
    Decides (fun pr err => eval ⟨pr, now⟩ e = .error err) records (select e now records) := by
  induction records with
  | nil => exact .ok []
  | cons pr rest ih =>
    have first : Decides (fun pr err => eval ⟨pr, now⟩ e = .error err) [pr] (holds ⟨pr, now⟩ e) :=
      .single fun err => holds_error
    rw [select_cons]
    exact first.bind fun kept _ => ih.map

theorem select_ok {e : Expr} {now : Time.Instant} {records kept : List PullRequest} :
    select e now records = .ok kept ↔
      (∀ pr ∈ records, ∃ value, eval ⟨pr, now⟩ e = .ok value) ∧
        kept = records.filter fun pr => accepts ⟨pr, now⟩ e := by
  induction records generalizing kept with
  | nil => simp [select, eq_comm]
  | cons pr rest ih =>
    rw [select_cons, List.forall_mem_cons, List.filter_cons]
    cases first : eval ⟨pr, now⟩ e with
    | error err =>
      rw [holds_error.mpr first]
      simp [bind, Except.bind]
    | ok value =>
      rw [holds_ok.mpr ⟨⟨value, first⟩, rfl⟩]
      change (select e now rest >>= _) = _ ↔ _
      cases others : select e now rest with
      | error err =>
        have unfinished : ¬ ∀ pr ∈ rest, ∃ value, eval ⟨pr, now⟩ e = .ok value := by
          intro all
          simpa [others] using ih.mpr ⟨all, rfl⟩
        simp [bind, Except.bind, unfinished]
      | ok more =>
        obtain ⟨all, rfl⟩ := ih.mp others
        simp only [bind, Except.bind, Except.ok.injEq, exists_eq', true_and]
        exact ⟨fun same => ⟨all, same.symm⟩, fun told => told.2.symm⟩

/-- A query that is read as a tree, and has a value for every record, selects those that it accepts. -/
theorem run_query {table : OperatorTable} {bindings : Variables} {source : String} {e : Expr}
    (parsed : parse table (expand bindings source.toList) = .ok e) {now : Time.Instant}
    {records : List PullRequest} (total : ∀ pr ∈ records, ∃ value, eval ⟨pr, now⟩ e = .ok value) :
    Filter.run table bindings now records (.query source) =
      .ok (records.filter fun pr => accepts ⟨pr, now⟩ e) := by
  have compiled : compile table bindings source =
      .ok ⟨source, String.ofList (expand bindings source.toList), e⟩ := by
    simp [compile, parsed, bind, Except.bind, pure, Except.pure]
  have selected := select_ok.mpr ⟨total, rfl⟩
  simp [Filter.run, compiled, selected, Except.mapError, bind, Except.bind]

theorem run_truth {table : OperatorTable} {bindings : Variables} {source : String} {e : Expr}
    {now : Time.Instant} {records : List PullRequest} {truth : PullRequest → Bool}
    (parsed : parse table (expand bindings source.toList) = .ok e)
    (means : ∀ pr ∈ records, eval ⟨pr, now⟩ e = .ok (.boolean (truth pr))) :
    Filter.run table bindings now records (.query source) = .ok (records.filter truth) := by
  rw [run_query parsed fun pr member => ⟨_, means pr member⟩]
  congr 1
  apply List.filter_congr
  intro pr member
  exact accepts_of_eval (means pr member)

end Query
end PullQuery
