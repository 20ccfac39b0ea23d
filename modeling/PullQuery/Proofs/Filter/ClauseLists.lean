import PullQuery.Filter.Clause
import PullQuery.Proofs.Query.Selecting

/-! Lists of clauses. The fields that are resolved on the way stand in a table, which holds for every
name what the name would be resolved to anew, so that a record passes if each clause alone accepts
it. -/
namespace PullQuery.Filter
open Data Query

/-- Every name in the table has the value that it is resolved to anew. -/
def IsFresh (pr : PullRequest) (currentUser : Option String) (resolved : Dictionary Value) : Prop :=
  ∀ name value, resolved.find? name = some value → value = resolve pr name currentUser

section Table
variable {pr : PullRequest} {currentUser : Option String} {resolved : Dictionary Value}

private theorem isFresh_nil (pr : PullRequest) (currentUser : Option String) :
    IsFresh pr currentUser [] := by
  simp [IsFresh, Dictionary.find?]

private theorem IsFresh.insert (fresh : IsFresh pr currentUser resolved) (name : String) :
    IsFresh pr currentUser (resolved.insert name (resolve pr name currentUser)) := by
  intro other value found
  rw [Dictionary.find?_insert] at found
  split at found
  · rename_i same
    rw [same, ← Option.some.inj found]
  · exact fresh other value found

theorem IsFresh.passesFrom_cons (fresh : IsFresh pr currentUser resolved) (clause : Clause)
    (rest : List Clause) :
    ∃ next, IsFresh pr currentUser next ∧
      passesFrom pr currentUser resolved (clause :: rest) =
        (clause.accepts (resolve pr clause.field currentUser) &&
          passesFrom pr currentUser next rest) := by
  rw [passesFrom]
  cases found : resolved.find? clause.field with
  | some value =>
    obtain rfl := fresh _ _ found
    exact ⟨resolved, fresh, rfl⟩
  | none => exact ⟨_, fresh.insert clause.field, rfl⟩

private theorem IsFresh.passesFrom_eq (fresh : IsFresh pr currentUser resolved)
    (clauses : List Clause) :
    passesFrom pr currentUser resolved clauses =
      clauses.all fun clause => clause.accepts (resolve pr clause.field currentUser) := by
  induction clauses generalizing resolved with
  | nil => rfl
  | cons clause rest ih =>
    obtain ⟨next, still, step⟩ := fresh.passesFrom_cons clause rest
    rw [step, List.all_cons, ih still]

end Table

theorem passes_eq (pr : PullRequest) (clauses : List Clause) (bindings : Variables) :
    passes pr clauses bindings =
      clauses.all fun clause => clause.accepts (resolve pr clause.field bindings.currentUser?) :=
  (isFresh_nil pr bindings.currentUser?).passesFrom_eq clauses

theorem passes_iff {pr : PullRequest} {clauses : List Clause} {bindings : Variables} :
    passes pr clauses bindings = true ↔
      ∀ clause ∈ clauses, clause.accepts (resolve pr clause.field bindings.currentUser?) = true := by
  rw [passes_eq, List.all_eq_true]

theorem passes_append (pr : PullRequest) (clauses others : List Clause) (bindings : Variables) :
    passes pr (clauses ++ others) bindings =
      (passes pr clauses bindings && passes pr others bindings) := by
  simp only [passes_eq, List.all_append]

theorem byClauses_append (records : List PullRequest) (clauses others : List Clause)
    (bindings : Variables) :
    byClauses records (clauses ++ others) bindings =
      byClauses (byClauses records clauses bindings) others bindings := by
  simp only [byClauses, List.filter_filter]
  congr 1
  funext pr
  rw [passes_append, Bool.and_comm]

/-- A record passes if every clause accepts its field, resolved for that clause alone. Neither the order
of the clauses nor repeating them makes a difference, and clauses may be checked in several goes. -/
theorem clauses_are_checked_alone (clauses others : List Clause) (bindings : Variables) :
    (∀ pr, passes pr clauses bindings = true ↔
      ∀ clause ∈ clauses, clause.accepts (resolve pr clause.field bindings.currentUser?) = true) ∧
    ((∀ clause, clause ∈ clauses ↔ clause ∈ others) →
      ∀ pr, passes pr clauses bindings = passes pr others bindings) ∧
    ∀ records, byClauses records (clauses ++ others) bindings =
      byClauses (byClauses records clauses bindings) others bindings := by
  refine ⟨fun pr => passes_iff, fun same pr => ?_, fun records => byClauses_append _ _ _ _⟩
  rw [Bool.eq_iff_iff, passes_iff, passes_iff]
  simp only [same]

theorem clauses_are_checked_alone_repeated_label :
    let label : Clause := ⟨"label", .includes, none, [.text "DOCS"]⟩
    let author : Clause := ⟨"author", .includes, some (.text "@me"), []⟩
    let draft : Clause := ⟨"draft", .isFalse, none, []⟩
    (∀ clause, clause ∈ [label, author, label, draft] ↔ clause ∈ [draft, author, label]) ∧
      passes .sample [label, author, label, draft] (.ofUser "alice") =
        passes .sample [draft, author, label] (.ofUser "alice") ∧
      passes .sample [draft, author, label] (.ofUser "alice") = true ∧
      passes .sample [draft, author, label] (.ofUser "bob") = false := by
  intro label author draft
  have same : ∀ clause, clause ∈ [label, author, label, draft] ↔ clause ∈ [draft, author, label] := by
    intro clause
    simp only [List.mem_cons, List.not_mem_nil, or_false]
    tauto
  have checked := clauses_are_checked_alone [label, author, label, draft] [draft, author, label]
    (.ofUser "alice")
  exact ⟨same, checked.2.1 same .sample, by decide +kernel, by decide +kernel⟩

end PullQuery.Filter
