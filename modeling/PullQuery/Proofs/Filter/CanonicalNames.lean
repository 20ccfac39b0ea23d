import PullQuery.Proofs.Filter.ClauseLists
import PullQuery.Proofs.Query.Mentions

/-! Aliases and bare words. A query means the same with every bare operand written as a text and every
other alias written as the name of its field, and so does a list of clauses with canonical names. -/
namespace PullQuery
open Query

namespace Field

theorem canonicalName_cases (name : String) :
    canonicalName name = name ∨ (name, canonicalName name) ∈ aliases := by
  rw [canonicalName]
  cases found : aliases.find? fun entry => entry.1 == name with
  | none => exact .inl rfl
  | some entry =>
    have named : entry.1 = name := by simpa using List.find?_some found
    exact .inr (named ▸ List.mem_of_find?_eq_some found)

theorem canonicalName_canonicalName (name : String) :
    canonicalName (canonicalName name) = canonicalName name := by
  have fixed : aliases.all (fun entry => canonicalName entry.2 == entry.2) = true := by decide
  obtain same | aliased := canonicalName_cases name
  · rw [same, same]
  · simpa using List.all_eq_true.mp fixed _ aliased

private theorem ofNameOrAlias?_canonicalName (name : String) :
    ofNameOrAlias? (canonicalName name) = ofNameOrAlias? name := by
  rw [ofNameOrAlias?, ofNameOrAlias?, canonicalName_canonicalName]

end Field

theorem PullRequest.field_canonicalName (pr : PullRequest) (name : String) :
    pr.field (Field.canonicalName name) = pr.field name := by
  rw [field, field, Field.ofNameOrAlias?_canonicalName]

namespace Query
namespace Expr

/-- Where an operand is expected a bare name becomes the text of itself. -/
def canonicalAsOperand (e canonical : Expr) : Expr :=
  match e with
  | .name s => .text s
  | _ => canonical

mutual

/-- The tree with a text for every bare name in the place of an operand, and the name of the field for
every other alias. -/
def canonical : Expr → Expr
  | .name s => .name (Field.canonicalName s)
  | .unary op e => .unary op e.canonical
  | .binary op l r =>
    .binary op l.canonical (if op.compares then r.canonicalAsOperand r.canonical else r.canonical)
  | .list es => .list (canonicalOperands es)
  | .call function es => .call function (canonicalOperands es)
  | .all es => .all (canonicalParts es)
  | e => e

def canonicalOperands : List Expr → List Expr
  | [] => []
  | e :: rest => e.canonicalAsOperand e.canonical :: canonicalOperands rest

def canonicalParts : List Expr → List Expr
  | [] => []
  | e :: rest => e.canonical :: canonicalParts rest

end
end Expr

private theorem asOperand_canonical {context : Context} {e : Expr}
    (same : eval context e.canonical = eval context e) :
    asOperand (e.canonicalAsOperand e.canonical) (eval context (e.canonicalAsOperand e.canonical)) =
      asOperand e (eval context e) := by
  cases e with
  | name s => rfl
  | _ => exact same

mutual

private theorem eval_canonical (context : Context) (e : Expr) :
    eval context e.canonical = eval context e := by
  match e with
  | .name s => exact congrArg Except.ok (context.record.field_canonicalName s)
  | .unary op e => rw [Expr.canonical, eval, eval, eval_canonical context e]
  | .binary op l r =>
    have right := eval_canonical context r
    rw [Expr.canonical, eval_binary, eval_binary, eval_canonical context l]
    cases op.compares with
    | true => simp only [if_true, asOperand_canonical right]
    | false => simp only [Bool.false_eq_true, if_false, right]
  | .list es => rw [Expr.canonical, eval, eval, evalOperands_canonical context es]
  | .call function es => rw [Expr.canonical, eval, eval, evalOperands_canonical context es]
  | .all es => rw [Expr.canonical, eval, eval, evalAll_canonical context es]
  | .integer _ | .float _ | .text _ | .boolean _ | .null => rfl

theorem evalOperands_canonical (context : Context) (es : List Expr) :
    evalOperands context (Expr.canonicalOperands es) = evalOperands context es := by
  match es with
  | [] => rfl
  | e :: rest =>
    rw [Expr.canonicalOperands, evalOperands_cons, evalOperands_cons,
      asOperand_canonical (eval_canonical context e), evalOperands_canonical context rest]

theorem evalAll_canonical (context : Context) (es : List Expr) :
    evalAll context (Expr.canonicalParts es) = evalAll context es := by
  match es with
  | [] => rfl
  | e :: rest =>
    rw [Expr.canonicalParts, evalAll, evalAll, eval_canonical context e,
      evalAll_canonical context rest]

end

/-- Words are gone from a canonical tree, and a field stands under its own name. -/
def Mention.isCanonical : Mention → Bool
  | .field name => Field.canonicalName name == name
  | .word _ => false
  | .function _ | .order => true

private theorem isCanonical_mentionsAsOperand {e : Expr}
    (canonical : e.canonical.mentions.all Mention.isCanonical = true) :
    ((e.canonicalAsOperand e.canonical).mentionsAsOperand
      (e.canonicalAsOperand e.canonical).mentions).all Mention.isCanonical = true := by
  cases e with
  | name s => rfl
  | _ => exact canonical

mutual

private theorem isCanonical_mentions (e : Expr) :
    e.canonical.mentions.all Mention.isCanonical = true := by
  match e with
  | .name s => simp [Expr.canonical, Expr.mentions, Mention.isCanonical,
      Field.canonicalName_canonicalName]
  | .unary op e => exact isCanonical_mentions e
  | .binary op l r =>
    have left := isCanonical_mentions l
    have right := isCanonical_mentions r
    have clock : (if op.orders then [Mention.order] else []).all Mention.isCanonical = true := by
      split <;> rfl
    rw [Expr.canonical, Expr.mentions, List.all_append, List.all_append, left, clock]
    cases op.compares with
    | true => simp [isCanonical_mentionsAsOperand right]
    | false => simp [right]
  | .list es => exact isCanonical_mentionsOfOperands es
  | .call function es =>
    rw [Expr.canonical, Expr.mentions, List.all_append, isCanonical_mentionsOfOperands es]
    rfl
  | .all es => exact isCanonical_mentionsIn es
  | .integer _ | .float _ | .text _ | .boolean _ | .null => rfl

theorem isCanonical_mentionsOfOperands (es : List Expr) :
    (Expr.mentionsOfOperands (Expr.canonicalOperands es)).all Mention.isCanonical = true := by
  match es with
  | [] => rfl
  | e :: rest =>
    rw [Expr.canonicalOperands, Expr.mentionsOfOperands, List.all_append,
      isCanonical_mentionsAsOperand (isCanonical_mentions e), isCanonical_mentionsOfOperands rest]
    rfl

theorem isCanonical_mentionsIn (es : List Expr) :
    (Expr.mentionsIn (Expr.canonicalParts es)).all Mention.isCanonical = true := by
  match es with
  | [] => rfl
  | e :: rest =>
    rw [Expr.canonicalParts, Expr.mentionsIn, List.all_append, isCanonical_mentions e,
      isCanonical_mentionsIn rest]
    rfl

end
end Query

namespace Filter

def Clause.canonical (clause : Clause) : Clause :=
  { clause with field := Field.canonicalName clause.field }

/-- What a clause resolves in a way of its own is no alias and has none. -/
theorem resolve_canonicalName (pr : PullRequest) (name : String) (currentUser : Option String) :
    resolve pr (Field.canonicalName name) currentUser = resolve pr name currentUser := by
  have plain : Field.aliases.all (fun entry =>
      [entry.1, entry.2].all (· ∉ ["author", "user_review", "user_reviewed"])) = true := by decide
  obtain same | aliased := Field.canonicalName_cases name
  · rw [same]
  · have others := List.all_eq_true.mp plain _ aliased
    simp only [List.all_cons, List.all_nil, Bool.and_true, Bool.and_eq_true, decide_eq_true_eq,
      List.mem_cons, List.not_mem_nil, or_false, not_or] at others
    simp [resolve, others, pr.field_canonicalName]

private theorem passes_canonical (pr : PullRequest) (clauses : List Clause) (bindings : Variables) :
    passes pr (clauses.map Clause.canonical) bindings = passes pr clauses bindings := by
  rw [passes_eq, passes_eq, List.all_map]
  congr 1
  funext clause
  exact congrArg clause.accepts (resolve_canonicalName pr clause.field bindings.currentUser?)

end Filter

/-- Writing bare operands as texts and aliases as the names of their fields changes neither what a query
yields nor which records pass a list of clauses. -/
theorem canonical_means_the_same :
    (∀ (e : Expr) (context : Context), eval context e.canonical = eval context e) ∧
      (∀ e : Expr, e.canonical.mentions.all Mention.isCanonical = true) ∧
      ∀ (pr : PullRequest) (clauses : List Filter.Clause) (bindings : Variables),
        Filter.passes pr (clauses.map Filter.Clause.canonical) bindings =
          Filter.passes pr clauses bindings :=
  ⟨fun e context => eval_canonical context e, isCanonical_mentions, Filter.passes_canonical⟩

-- `draft = (label, f(org), -label)`
example : Expr.canonical (.binary .equal (.name "draft")
    (.list [.name "label", .call "f" [.name "org"], .unary .negate (.name "label")])) =
      .binary .equal (.name "isDraft")
        (.list [.text "label", .call "f" [.text "org"], .unary .negate (.name "labels")]) := rfl

end PullQuery
