import PullQuery.Proofs.Query.Faults
import PullQuery.Proofs.Value.Membership

/-! Membership in a list that is written out. A value is in the list if it equals one of the items, so
membership says the same as the equalities joined by OR, and its negation the same as the inequalities
joined by AND, down to the error of the first item that has one. -/
namespace PullQuery

def Value.isList : Value → Bool
  | .list _ => true
  | _ => false

section Scalars
variable {value : Value} (scalar : value.isList = false)
include scalar

theorem Value.unwrapped_scalar : value.unwrapped = value := by
  cases value with
  | list items => simp [isList] at scalar
  | _ => rfl

theorem Value.items_scalar : value.items = [value] := by
  cases value with
  | list items => simp [isList] at scalar
  | _ => rfl

end Scalars

namespace Query

private theorem bind_ok {α β : Type} {first : Except EvalError α} {next : α → Except EvalError β}
    {result : β}
    (yields : first >>= next = .ok result) : ∃ value, first = .ok value ∧ next value = .ok result := by
  cases first with
  | error err => simp [bind, Except.bind] at yields
  | ok value => exact ⟨value, rfl, yields⟩

private theorem isList_wordValue (n : Int) : (wordValue n).isList = false := by
  unfold wordValue
  cases Number.word? n <;> rfl

private theorem isList_narrowed (x : Float) : (narrowed x).isList = false := by
  unfold narrowed
  split <;> rfl

private theorem isList_unaryValue (op : UnaryOp) (value : Value) :
    (unaryValue op value).isList = false := by
  have number (x : Option Float) (f : Float → Float) :
      ((x.map fun x => narrowed (f x)).getD .null).isList = false := by
    cases x with
    | none => rfl
    | some x => exact isList_narrowed (f x)
  unfold unaryValue
  split
  · exact isList_wordValue _
  · rfl
  · rfl
  · rfl
  · exact number _ (-·)
  · exact number _ id

private theorem isList_sumFloats {kind : SumKind} {x y : Float} {value : Value}
    (sums : sumFloats kind x y = .ok value) : value.isList = false := by
  unfold sumFloats at sums
  split at sums
  · split at sums
    · simp at sums
    · rename_i sum _
      obtain rfl := Except.ok.inj sums
      cases sum.toWord? <;> rfl
  · obtain rfl := Except.ok.inj sums
    exact isList_narrowed _

private theorem isList_sum {kind : SumKind} {left right value : Value}
    (sums : sum kind left right = .ok value) :
    value.isList = false := by
  unfold sum at sums
  split at sums
  · obtain rfl := Except.ok.inj sums
    exact isList_wordValue _
  · split at sums
    · exact isList_sumFloats sums
    · obtain rfl := Except.ok.inj sums
      rfl

private theorem isList_binaryValue {now : Time.Instant} {op : BinaryOp} {left right value : Value}
    (yields : binaryValue now op left right = .ok value) : value.isList = false := by
  cases sums : op.sumKind? with
  | none =>
    obtain ⟨b, boolean⟩ := binaryValue_ok now sums left right
    obtain rfl := Except.ok.inj (boolean.symm.trans yields)
    rfl
  | some kind =>
    rw [binaryValue_of_sumKind? sums] at yields
    exact isList_sum yields

private theorem isList_call {context : Context} {function : String} {arguments : List Value}
    {value : Value}
    (yields : Function.call context function arguments = .ok value) : value.isList = false := by
  unfold Function.call at yields
  split at yields
  · cases read : Function.textArgument function "APPROVED" arguments with
    | error err => simp [read, bind, Except.bind] at yields
    | ok state =>
      rw [read] at yields
      obtain rfl := Except.ok.inj yields
      rfl
  · split at yields
    · cases read : Function.textArgument function "newest" arguments with
      | error err => simp [read, bind, Except.bind] at yields
      | ok mode =>
        rw [read] at yields
        cases known : RequestChoice.ofText? mode with
        | none => simp [known, bind, Except.bind, throw, throwThe, MonadExceptOf.throw] at yields
        | some choice =>
          simp only [known, bind, Except.bind] at yields
          obtain rfl := Except.ok.inj yields
          cases context.record.openRequests.requestedAt? choice <;> rfl
    · simp [throw, throwThe, MonadExceptOf.throw] at yields

/-- In the place of an operand only a list that is written out has a list for its value. -/
theorem isList_asOperand {context : Context} {e : Expr} {value : Value}
    (plain : ∀ es, e ≠ .list es) (yields : asOperand e (eval context e) = .ok value) :
    value.isList = false := by
  cases e with
  | list es => exact absurd rfl (plain es)
  | name s =>
    obtain rfl := Except.ok.inj yields
    rfl
  | integer _ | float _ | text _ | boolean _ | null =>
    obtain rfl := Except.ok.inj yields
    rfl
  | unary op e =>
    change eval context (.unary op e) = .ok value at yields
    rw [eval] at yields
    obtain ⟨operand, -, yields⟩ := bind_ok yields
    obtain rfl := Except.ok.inj yields
    exact isList_unaryValue op operand
  | binary op l r =>
    change eval context (.binary op l r) = .ok value at yields
    rw [eval_binary] at yields
    obtain ⟨left, -, yields⟩ := bind_ok yields
    obtain ⟨right, -, yields⟩ := bind_ok yields
    exact isList_binaryValue yields
  | call function es =>
    change eval context (.call function es) = .ok value at yields
    rw [eval] at yields
    obtain ⟨values, -, yields⟩ := bind_ok yields
    exact isList_call yields
  | all es =>
    change eval context (.all es) = .ok value at yields
    rw [eval] at yields
    obtain ⟨values, -, yields⟩ := bind_ok yields
    obtain rfl := Except.ok.inj yields
    rfl

private theorem isList_of_mem_values {context : Context} {es : List Expr} {values : List Value}
    (plain : ∀ e ∈ es, ∀ items, e ≠ .list items) (yields : evalOperands context es = .ok values) :
    ∀ value ∈ values, value.isList = false := by
  induction es generalizing values with
  | nil =>
    obtain rfl := Except.ok.inj yields
    simp
  | cons e rest ih =>
    rw [evalOperands_cons] at yields
    obtain ⟨value, first, yields⟩ := bind_ok yields
    obtain ⟨others, behind, yields⟩ := bind_ok yields
    obtain rfl := Except.ok.inj yields
    obtain ⟨here, later⟩ := List.forall_mem_cons.mp plain
    exact List.forall_mem_cons.mpr ⟨isList_asOperand here first, ih later behind⟩

theorem evalOperands_append (context : Context) (es fs : List Expr) :
    evalOperands context (es ++ fs) =
      evalOperands context es >>= fun values =>
        evalOperands context fs >>= fun others => .ok (values ++ others) := by
  induction es with
  | nil => cases read : evalOperands context fs <;> simp [read, evalOperands_nil, bind, Except.bind]
  | cons e rest ih =>
    rw [List.cons_append, evalOperands_cons, evalOperands_cons, ih]
    cases asOperand e (eval context e) with
    | error err => rfl
    | ok value =>
      cases evalOperands context rest with
      | error err => rfl
      | ok values => cases evalOperands context fs <;> rfl

/-- Expressions joined by an operator in their order, bracketed in any way. -/
inductive Joined (op : BinaryOp) : List Expr → Expr → Prop
  | single (e : Expr) : Joined op [e] e
  | both {es fs : List Expr} {e f : Expr} (left : Joined op es e) (right : Joined op fs f) :
      Joined op (es ++ fs) (.binary op e f)

theorem joined_foldl (op : BinaryOp) (e : Expr) (es : List Expr) :
    Joined op (e :: es) (es.foldl (.binary op) e) := by
  induction es using List.reverseRecOn with
  | nil => exact .single e
  | append_singleton es f ih =>
    rw [List.foldl_append]
    exact .both ih (.single f)

inductive Sense where
  | within
  | without
  deriving DecidableEq, Repr

namespace Sense

def membership : Sense → BinaryOp
  | within => .isIn
  | without => .notIn

def comparison : Sense → BinaryOp
  | within => .equal
  | without => .notEqual

def connective : Sense → BinaryOp
  | within => .or
  | without => .and

def answer : Sense → Value → Value → Bool
  | within, left, right => equal left right
  | without, left, right => !equal left right

def verdict : Sense → List Bool → Bool
  | within, answers => answers.any id
  | without, answers => answers.all id

private theorem verdict_single (sense : Sense) (answer : Bool) :
    sense.verdict [answer] = answer := by
  cases sense <;> cases answer <;> rfl

theorem verdict_append (sense : Sense) (answers others : List Bool) :
    sense.verdict (answers ++ others) = sense.verdict [sense.verdict answers, sense.verdict others] := by
  cases sense <;> simp [verdict]

end Sense

section Evaluating
variable (context : Context) (sense : Sense) (x : Expr)

private theorem eval_answer (e : Expr) :
    eval context (.binary sense.comparison x e) =
      eval context x >>= fun left => asOperand e (eval context e) >>= fun right =>
        .ok (.boolean (sense.answer left.unwrapped right.unwrapped)) := by
  rw [eval_binary]
  cases sense <;> rfl

private theorem eval_connective (e f : Expr) :
    eval context (.binary sense.connective e f) =
      eval context e >>= fun first => eval context f >>= fun second =>
        .ok (.boolean (sense.verdict [first.isTruthy, second.isTruthy])) := by
  rw [eval_binary]
  cases sense <;> simp [Sense.connective, Sense.verdict, BinaryOp.compares, binaryValue,
    binaryValueBy]

variable {context sense x}

/-- Comparisons with the same left side that are joined evaluate as if that were evaluated once and then
the right sides. -/
theorem eval_joined {es : List Expr} {e : Expr}
    (joined : Joined sense.connective (es.map (.binary sense.comparison x)) e) :
    eval context e =
      eval context x >>= fun left => evalOperands context es >>= fun values =>
        .ok (.boolean (sense.verdict
          (values.map fun value => sense.answer left.unwrapped value.unwrapped))) := by
  generalize same : es.map (Expr.binary sense.comparison x) = comparisons at joined
  induction joined generalizing es with
  | single e =>
    obtain ⟨item, rfl, rfl⟩ := List.map_eq_singleton_iff.mp same
    rw [eval_answer, evalOperands_cons, evalOperands_nil]
    cases eval context x with
    | error err => rfl
    | ok left =>
      cases asOperand item (eval context item) with
      | error err => rfl
      | ok value => simp [bind, Except.bind, Sense.verdict_single]
  | both left right first second =>
    obtain ⟨es, fs, rfl, rfl, rfl⟩ := List.map_eq_append_iff.mp same
    rw [eval_connective, first rfl, second rfl, evalOperands_append]
    cases eval context x with
    | error err => rfl
    | ok left =>
      cases evalOperands context es with
      | error err => rfl
      | ok values =>
        cases evalOperands context fs with
        | error err => rfl
        | ok others =>
          simp only [bind, Except.bind, List.map_append, sense.verdict_append (values.map _)]
          rfl

end Evaluating

private theorem sharesItem_eq_any (left right : Value) :
    sharesItem left right = right.items.any fun item => equal left item := by
  cases left with
  | list items => exact any_any_comm items right.items fun item candidate => item.equals candidate
  | _ => rfl

private theorem comparison_membership (now : Time.Instant) (sense : Sense) (left right : Value) :
    comparison now sense.membership left right = sense.verdict (right.items.map (sense.answer left)) := by
  cases sense with
  | within =>
    rw [Sense.verdict, List.any_map]
    exact sharesItem_eq_any left right
  | without =>
    rw [Sense.verdict, List.all_map]
    change (!sharesItem left right) = _
    rw [sharesItem_eq_any, List.not_any_eq_all_not]
    rfl

private theorem eval_membership (context : Context) (sense : Sense) (x e : Expr) :
    eval context (.binary sense.membership x e) =
      eval context x >>= fun left => asOperand e (eval context e) >>= fun right =>
        .ok (.boolean (sense.verdict (right.unwrapped.items.map (sense.answer left.unwrapped)))) := by
  simp only [← comparison_membership context.now]
  rw [eval_binary]
  cases sense <;> rfl

/-- An item in the place of the list is taken as the list of it alone. -/
theorem eval_membership_item (context : Context) (sense : Sense) (x : Expr) {e : Expr}
    (plain : ∀ items, e ≠ .list items) :
    eval context (.binary sense.membership x e) = eval context (.binary sense.comparison x e) := by
  rw [eval_membership, eval_answer]
  cases eval context x with
  | error err => rfl
  | ok left =>
    cases yields : asOperand e (eval context e) with
    | error err => rfl
    | ok right =>
      have scalar := isList_asOperand plain yields
      simp only [bind, Except.bind, right.unwrapped_scalar scalar, right.items_scalar scalar,
        List.map_cons, List.map_nil, Sense.verdict_single]

private theorem items_of_list {values : List Value}
    (scalars : ∀ value ∈ values, value.isList = false) :
    (Value.list (values.flatMap Value.items)).unwrapped.items = values := by
  have flat : values.flatMap Value.items = values := by
    induction values with
    | nil => rfl
    | cons value rest ih =>
      obtain ⟨scalar, others⟩ := List.forall_mem_cons.mp scalars
      rw [List.flatMap_cons, value.items_scalar scalar, ih others]
      rfl
  rw [flat]
  match values with
  | [] => rfl
  | [value] => exact value.items_scalar (scalars value (.head _))
  | _ :: _ :: _ => rfl

private theorem eval_membership_list (context : Context) (sense : Sense) (x : Expr) {es : List Expr}
    (plain : ∀ e ∈ es, ∀ items, e ≠ .list items) :
    eval context (.binary sense.membership x (.list es)) =
      eval context x >>= fun left => evalOperands context es >>= fun values =>
        .ok (.boolean (sense.verdict
          (values.map fun value => sense.answer left.unwrapped value.unwrapped))) := by
  have listed : asOperand (.list es) (eval context (.list es)) =
      evalOperands context es >>= fun values => .ok (.list (values.flatMap Value.items)) := rfl
  rw [eval_membership, listed]
  cases eval context x with
  | error err => rfl
  | ok left =>
    cases yields : evalOperands context es with
    | error err => rfl
    | ok values =>
      have scalars := isList_of_mem_values plain yields
      have same : values.map (fun value => sense.answer left.unwrapped value.unwrapped) =
          values.map (sense.answer left.unwrapped) :=
        List.map_congr_left fun value member => by
          rw [value.unwrapped_scalar (scalars value member)]
      simp only [bind, Except.bind, items_of_list scalars, same]

/-- Being in a list that is written out is equal to one of its items or another, and not being in it is
to differ from each: they have the same value, or the same error. Nothing is in the list without items. -/
theorem membership_is_equality (context : Context) (x : Expr) (es : List Expr)
    (plain : ∀ e ∈ es, ∀ items, e ≠ .list items) :
    (∀ disjunction, Joined .or (es.map (.binary .equal x)) disjunction →
      eval context (.binary .isIn x (.list es)) = eval context disjunction ∧
        ∀ e, es = [e] → eval context (.binary .isIn x e) = eval context disjunction) ∧
    (∀ conjunction, Joined .and (es.map (.binary .notEqual x)) conjunction →
      eval context (.binary .notIn x (.list es)) = eval context conjunction ∧
        ∀ e, es = [e] → eval context (.binary .notIn x e) = eval context conjunction) ∧
    eval context (.binary .isIn x (.list [])) = (eval context x).map (fun _ => .boolean false) ∧
    eval context (.binary .notIn x (.list [])) = (eval context x).map (fun _ => .boolean true) := by
  have joined (sense : Sense) (e : Expr)
      (whole : Joined sense.connective (es.map (.binary sense.comparison x)) e) :
      eval context (.binary sense.membership x (.list es)) = eval context e ∧
        ∀ item, es = [item] → eval context (.binary sense.membership x item) = eval context e := by
    refine ⟨(eval_membership_list context sense x plain).trans (eval_joined whole).symm, ?_⟩
    rintro item rfl
    have alone : Joined sense.connective ([item].map (.binary sense.comparison x))
        (.binary sense.comparison x item) := .single _
    rw [eval_membership_item context sense x (plain item (.head _)), eval_joined alone, eval_joined whole]
  have empty (sense : Sense) : eval context (.binary sense.membership x (.list [])) =
      (eval context x).map (fun _ => .boolean (sense.verdict [])) := by
    rw [eval_membership_list context sense x (by simp)]
    cases eval context x <;> rfl
  exact ⟨joined .within, joined .without, empty .within, empty .without⟩

theorem membership_is_equality_word_and_call :
    let context : Context := ⟨.sample, .epoch⟩
    let es : List Expr := [.null, .name "DOCS", .call Function.requestedAt []]
    let unknown : List Expr := [.name "DOCS", .call "f" []]
    let equalities (es : List Expr) :=
      (es.map (.binary .equal (.name "label"))).foldl (.binary .or) (.binary .equal (.name "label") (.integer 7))
    ((∀ e ∈ Expr.integer 7 :: es, ∀ items, e ≠ .list items) ∧
        Joined .or ((.integer 7 :: es).map (.binary .equal (.name "label"))) (equalities es)) ∧
      eval context (.binary .isIn (.name "label") (.list (.integer 7 :: es))) = eval context (equalities es) ∧
      eval context (equalities es) = .ok (.boolean true) ∧
      eval context (.binary .isIn (.name "label") (.list (.integer 7 :: unknown))) =
        eval context (equalities unknown) ∧
      eval context (equalities unknown) = .error (.unknownFunction "f" "PR_1") := by
  intro context es unknown equalities
  have plain : ∀ e ∈ Expr.integer 7 :: es, ∀ items, e ≠ .list items := by simp [es]
  have others : ∀ e ∈ Expr.integer 7 :: unknown, ∀ items, e ≠ .list items := by simp [unknown]
  have joined (es : List Expr) :
      Joined .or ((.integer 7 :: es).map (.binary .equal (.name "label"))) (equalities es) :=
    joined_foldl .or _ _
  have first := membership_is_equality context (.name "label") (.integer 7 :: es) plain
  have second := membership_is_equality context (.name "label") (.integer 7 :: unknown) others
  exact ⟨⟨plain, joined es⟩, (first.1 _ (joined es)).1, rfl, (second.1 _ (joined unknown)).1, rfl⟩

end Query
end PullQuery
