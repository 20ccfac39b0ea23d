import PullQuery.Proofs.Query.Selecting
import PullQuery.Proofs.Query.TextComparisons
import PullQuery.Proofs.Value.Membership

/-! Clauses and queries agree on fields of text. Each compares the texts of a field with given ones in
its own way: a clause by the texts of arbitrary values, a query by the equality of the language. -/
namespace PullQuery
open Text Query

/-- The value is one of the texts alone, or the list of them. -/
inductive Value.HasTexts : Value → List String → Prop
  | text (s : String) : HasTexts (.text s) [s]
  | list (texts : List String) : HasTexts (.list (texts.map .text)) texts

theorem sameFolded_comm (s t : String) : sameFolded s t = sameFolded t s := by
  rw [sameFolded, sameFolded, Bool.beq_comm]

theorem Value.isAmong_texts (s : String) (texts : List String) :
    (Value.text s).isAmong (texts.map .text) = texts.any fun t => sameFolded t s := by
  rw [isAmong, if_neg (by simp [isNull]), List.any_map]
  congr 1
  funext t
  by_cases same : t = s
  · simp [Value.same, same, sameFolded]
  · simp [Value.same, same, isNull, folded, asText, sameFolded]

namespace Value.HasTexts
variable {value : Value} {texts : List String} (has : value.HasTexts texts)
include has

private theorem items : value.items = texts.map .text := by
  cases has <;> rfl

private theorem unwrapped : value.unwrapped.HasTexts texts := by
  cases has with
  | text s => exact .text s
  | list =>
    match texts with
    | [s] => exact .text s
    | [] => exact .list []
    | s :: t :: rest => exact .list (s :: t :: rest)

private theorem sharesItem_eq {right : Value} {values : List String}
    (items : right.items = values.map .text) :
    sharesItem value right = texts.any fun s => values.any fun v => sameFolded s v := by
  have hit (s : String) : (right.items.any fun item => (Value.text s).equals item) =
      values.any fun v => sameFolded s v := by
    rw [items, List.any_map]
    rfl
  cases has with
  | text s => simp only [sharesItem, hit, List.any_cons, List.any_nil, Bool.or_false]
  | list => simp only [sharesItem, List.any_map, Function.comp_def, hit]

private theorem equal_text (t : String) :
    equal value (.text t) = texts.any fun s => sameFolded s t := by
  cases has with
  | text s => exact (Bool.or_false _).symm
  | list => exact List.any_map

end Value.HasTexts

section Evaluating
variable {context : Context} {name : String} {texts : List String}

private theorem evalOperands_texts (context : Context) (values : List String) :
    evalOperands context (values.map .text) = .ok (values.map .text) := by
  induction values with
  | nil => rfl
  | cons value values ih =>
    have whole : evalOperands context ((value :: values).map .text) =
        evalOperands context (values.map .text) >>= fun others => .ok (.text value :: others) := rfl
    rw [whole, ih]
    rfl

private theorem eval_ofTexts (context : Context) (values : List String) :
    ∃ value, eval context (Expr.ofTexts values) = .ok value ∧
      value.unwrapped.items = values.map .text := by
  have listed (values : List String) : eval context (.list (values.map .text)) =
      .ok (.list (values.map .text)) := by
    have flat : (values.map Value.text).flatMap Value.items = values.map .text := by
      induction values with
      | nil => rfl
      | cons value values ih => exact congrArg (.text value :: ·) ih
    rw [eval, evalOperands_texts]
    change Except.ok (Value.list ((values.map Value.text).flatMap Value.items)) = _
    rw [flat]
  cases values with
  | nil => exact ⟨_, listed [], rfl⟩
  | cons value others =>
    cases others with
    | nil => exact ⟨_, rfl, rfl⟩
    | cons other others => exact ⟨_, listed (value :: other :: others), rfl⟩

private theorem asOperand_ofTexts (values : List String) (result : Except EvalError Value) :
    asOperand (Expr.ofTexts values) result = result := by
  match values with
  | [] | [_] | _ :: _ :: _ => rfl

variable (has : (context.record.field name).HasTexts texts)
include has

private theorem eval_membership {op : BinaryOp} (compares : op.compares = true)
    (values : List String) :
    ∃ left right, eval context (.binary op (.name name) (Expr.ofTexts values)) =
        .ok (.boolean (comparison context.now op left right)) ∧
      sharesItem left right = texts.any fun s => values.any fun v => sameFolded s v := by
  obtain ⟨right, rights, items⟩ := eval_ofTexts context values
  refine ⟨_, right.unwrapped, ?_, has.unwrapped.sharesItem_eq items⟩
  have left : eval context (.name name) = .ok (context.record.field name) := rfl
  rw [eval_binary, left, asOperand_ofTexts, rights, compares]
  cases op <;> first | rfl | simp [BinaryOp.compares] at compares

private theorem eval_isIn (values : List String) :
    eval context (.binary .isIn (.name name) (Expr.ofTexts values)) =
      .ok (.boolean (texts.any fun s => values.any fun v => sameFolded s v)) := by
  obtain ⟨left, right, evaluates, shares⟩ := @eval_membership context name texts has .isIn rfl values
  rw [evaluates, comparison, shares]

private theorem eval_notIn (values : List String) :
    eval context (.binary .notIn (.name name) (Expr.ofTexts values)) =
      .ok (.boolean (!texts.any fun s => values.any fun v => sameFolded s v)) := by
  obtain ⟨left, right, evaluates, shares⟩ := @eval_membership context name texts has .notIn rfl values
  rw [evaluates, comparison, shares]

private theorem eval_equals (v : String) :
    eval context (.binary .equal (.name name) (.text v)) =
      .ok (.boolean (texts.any fun s => sameFolded s v)) := by
  have left : eval context (.name name) = .ok (context.record.field name) := rfl
  have right : eval context (.text v) = .ok (.text v) := rfl
  rw [eval_binary, left, right]
  change Except.ok (Value.boolean (equal (context.record.field name).unwrapped (.text v))) = _
  rw [has.unwrapped.equal_text]

private theorem evalAll_equals (values : List String) :
    evalAll context (values.map fun v => .binary .equal (.name name) (.text v)) =
      .ok (values.map fun v => .boolean (texts.any fun s => sameFolded s v)) := by
  induction values with
  | nil => rfl
  | cons v values ih =>
    rw [List.map_cons, evalAll, eval_equals has, ih]
    rfl

private theorem eval_equalities (values : List String) :
    eval context (.ofParts (values.map fun v => .binary .equal (.name name) (.text v))) =
      .ok (.boolean (values.all fun v => texts.any fun s => sameFolded s v)) := by
  have several (values : List String) :
      eval context (.all (values.map fun v => .binary .equal (.name name) (.text v))) =
        .ok (.boolean (values.all fun v => texts.any fun s => sameFolded s v)) := by
    rw [eval, evalAll_equals has]
    simp [bind, Except.bind, pure, Except.pure, Function.comp_def, Value.isTruthy]
  cases values with
  | nil => exact several []
  | cons value others =>
    cases others with
    | nil => simpa [Expr.ofParts] using eval_equals has value
    | cons other others => exact several (value :: other :: others)

end Evaluating

namespace Filter

/-- Without a current user a clause compares the same texts as a query. -/
theorem resolve_hasTexts {pr : PullRequest} {name : String} {texts : List String}
    (has : (pr.field name).HasTexts texts) : (resolve pr name none).HasTexts texts := by
  unfold resolve
  split
  · rename_i author
    subst author
    have alone : pr.field "author" = .text pr.author.login := rfl
    rw [alone] at has
    cases has
    exact .list [pr.author.login]
  · split
    · rename_i review
      subst review
      have none : pr.field "user_review" = .null := rfl
      rw [none] at has
      cases has
    · split
      · rename_i reviewed
        subst reviewed
        have none : pr.field "user_reviewed" = .null := rfl
        rw [none] at has
        cases has
      · exact has

section Clauses
variable {value : Value} {texts : List String} (has : value.HasTexts texts) (name : String)
  (values : List String)

private theorem wanted_texts (compare : Comparator) :
    Clause.wanted ⟨name, compare, none, values.map .text⟩ = values.map .text := by
  simp [Clause.wanted, Function.comp_def, Scalar.toValue]

private theorem isAmong_values (s : String) :
    (Value.text s).isAmong (values.map .text) = values.any fun v => sameFolded s v := by
  rw [Value.isAmong_texts]
  simp only [sameFolded_comm]

include has

private theorem accepts_includes :
    Clause.accepts ⟨name, .includes, none, values.map .text⟩ value =
      texts.any fun s => values.any fun v => sameFolded s v := by
  cases has with
  | text s => simp only [Clause.accepts, wanted_texts, isAmong_values, List.any_cons, List.any_nil,
      Bool.or_false]
  | list => simp only [Clause.accepts, wanted_texts, List.any_map, Function.comp_def, isAmong_values]

private theorem accepts_excludes :
    Clause.accepts ⟨name, .excludes, none, values.map .text⟩ value =
      !texts.any fun s => values.any fun v => sameFolded s v := by
  cases has with
  | text s => simp only [Clause.accepts, wanted_texts, isAmong_values, List.any_cons, List.any_nil,
      Bool.or_false]
  | list =>
    simp only [Clause.accepts, wanted_texts, List.any_map, Function.comp_def, Value.isAmong_texts]
    rw [any_any_comm]

private theorem accepts_includesAll :
    Clause.accepts ⟨name, .includesAll, none, values.map .text⟩ value =
      values.all fun v => texts.any fun s => sameFolded s v := by
  simp only [Clause.accepts, wanted_texts, has.items, List.all_map, Function.comp_def,
    Value.isAmong_texts]

end Clauses

private theorem run_clause (now : Time.Instant) (records : List PullRequest) (clause : Clause)
    {truth : PullRequest → Bool}
    (means : ∀ pr, clause.accepts (resolve pr clause.field none) = truth pr) :
    run .standard [] now records (.clauses [clause]) = .ok (records.filter truth) := by
  have passing (pr : PullRequest) : passes pr [clause] [] = truth pr := by
    rw [← means pr]
    exact Bool.and_true _
  simp only [run, byClauses, passing]

end Filter

/-- A field whose value is a text or a list of texts in every record. -/
def Field.IsTextual (field : Field) : Prop := ∀ pr, ∃ texts, (field.valueIn pr).HasTexts texts

/-- On a field of text a clause selects what the query does that names the same texts in quotes,
whatever the texts are. -/
theorem clauses_agree_with_queries (name : String) (field : Field)
    (named : Field.ofNameOrAlias? name = some field) (textual : field.IsTextual) (now : Time.Instant)
    (records : List PullRequest) (values : List String) :
    Filter.run .standard [] now records (.clauses [⟨name, .includes, none, values.map .text⟩]) =
        Filter.run .standard [] now records (.query (membershipQuery "IN" name values)) ∧
      Filter.run .standard [] now records (.clauses [⟨name, .excludes, none, values.map .text⟩]) =
        Filter.run .standard [] now records (.query (membershipQuery "NOT IN" name values)) ∧
      Filter.run .standard [] now records (.clauses [⟨name, .includesAll, none, values.map .text⟩]) =
        Filter.run .standard [] now records (.query (equalitiesQuery name values)) := by
  have listed := mem_fieldNames named
  have single := tokenize_fieldName listed
  choose texts has using textual
  have has (pr : PullRequest) : (pr.field name).HasTexts (texts pr) := by
    rw [PullRequest.field, named]
    exact has pr
  have resolved (pr : PullRequest) := Filter.resolve_hasTexts (has pr)
  have inQuery : parse .standard (expand [] (membershipQuery "IN" name values).toList) =
      .ok (.binary .isIn (.name name) (.ofTexts values)) := by
    rw [(steady_membershipQuery listed (by decide +kernel) values).expand]
    exact parse_membershipQuery single rfl rfl values
  have notInQuery : parse .standard (expand [] (membershipQuery "NOT IN" name values).toList) =
      .ok (.binary .notIn (.name name) (.ofTexts values)) := by
    rw [(steady_membershipQuery listed (by decide +kernel) values).expand]
    exact parse_membershipQuery single rfl rfl values
  have allQuery : parse .standard (expand [] (equalitiesQuery name values).toList) =
      .ok (.ofParts (values.map fun v => .binary .equal (.name name) (.text v))) := by
    rw [(steady_equalitiesQuery listed values).expand]
    exact parse_equalitiesQuery single rfl values
  refine ⟨?_, ?_, ?_⟩
  · have clause := Filter.run_clause now records ⟨name, .includes, none, values.map .text⟩ fun pr =>
      Filter.accepts_includes (resolved pr) name values
    exact clause.trans (run_truth inQuery fun pr _ => eval_isIn (has pr) values).symm
  · have clause := Filter.run_clause now records ⟨name, .excludes, none, values.map .text⟩ fun pr =>
      Filter.accepts_excludes (resolved pr) name values
    exact clause.trans (run_truth notInQuery fun pr _ => eval_notIn (has pr) values).symm
  · have clause := Filter.run_clause now records ⟨name, .includesAll, none, values.map .text⟩ fun pr =>
      Filter.accepts_includesAll (resolved pr) name values
    exact clause.trans (run_truth allQuery fun pr _ => eval_equalities (has pr) values).symm

theorem clauses_agree_with_queries_label :
    (Field.ofNameOrAlias? "label" = some .labels ∧ Field.labels.IsTextual) ∧
      membershipQuery "IN" "label" ["7d", "a\"b\\", "DOCS"] =
        "label IN (\"7d\", \"a\\\"b\\\\\", \"DOCS\")" ∧
      Filter.run .standard [] .epoch [.sample]
          (.clauses [⟨"label", .includes, none, ["7d", "a\"b\\", "DOCS"].map .text⟩]) =
        Filter.run .standard [] .epoch [.sample]
          (.query (membershipQuery "IN" "label" ["7d", "a\"b\\", "DOCS"])) ∧
      Filter.run .standard [] .epoch [.sample]
          (.clauses [⟨"label", .includes, none, ["7d", "a\"b\\", "DOCS"].map .text⟩]) =
        .ok [.sample] := by
  have named : Field.ofNameOrAlias? "label" = some .labels := rfl
  have textual : Field.labels.IsTextual := fun pr => ⟨_, .list (pr.labels.map Label.name)⟩
  have agree := clauses_agree_with_queries "label" .labels named textual .epoch [.sample]
    ["7d", "a\"b\\", "DOCS"]
  exact ⟨⟨named, textual⟩, by decide +kernel, agree.1, by decide +kernel⟩

end PullQuery
