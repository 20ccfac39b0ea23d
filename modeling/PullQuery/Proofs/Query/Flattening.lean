import PullQuery.Proofs.Query.Memberships

/-! Lists within a list. When a list is read, the items of a list among its items are written in its
place; when it is evaluated, the items of a value that is a list are. Both lay out the same items in
the same order, and stop at the same fault. -/
namespace PullQuery.Query

def evalItems (context : Context) (es : List Expr) : Except EvalError (List Value) :=
  evalOperands context es >>= fun values => .ok (values.flatMap Value.items)

section Items
variable (context : Context)

private theorem eval_list (es : List Expr) :
    eval context (.list es) = evalItems context es >>= fun values => .ok (.list values) := by
  rw [eval, evalItems]
  cases evalOperands context es <;> rfl

private theorem evalItems_cons (e : Expr) (es : List Expr) :
    evalItems context (e :: es) =
      asOperand e (eval context e) >>= fun value =>
        evalItems context es >>= fun others => .ok (value.items ++ others) := by
  rw [evalItems, evalItems, evalOperands_cons]
  cases asOperand e (eval context e) with
  | error err => rfl
  | ok value => cases evalOperands context es <;> rfl

theorem evalItems_append (es fs : List Expr) :
    evalItems context (es ++ fs) =
      evalItems context es >>= fun values =>
        evalItems context fs >>= fun others => .ok (values ++ others) := by
  simp only [evalItems, evalOperands_append]
  cases evalOperands context es with
  | error err => rfl
  | ok values =>
    cases evalOperands context fs with
    | error err => rfl
    | ok others => exact congrArg Except.ok List.flatMap_append

theorem evalItems_splice (e : Expr) :
    evalItems context e.splice =
      asOperand e (eval context e) >>= fun value => .ok value.items := by
  have alone : evalItems context [e] =
      asOperand e (eval context e) >>= fun value => .ok value.items := by
    rw [evalItems_cons]
    cases asOperand e (eval context e) with
    | error err => rfl
    | ok value => exact congrArg Except.ok (List.append_nil value.items)
  cases e with
  | list items =>
    change evalItems context items = eval context (.list items) >>= fun value => .ok value.items
    rw [eval_list]
    cases evalItems context items <;> rfl
  | _ => exact alone

private theorem evalItems_flatMap_splice (es : List Expr) :
    evalItems context (es.flatMap Expr.splice) = evalItems context es := by
  induction es with
  | nil => rfl
  | cons e es ih =>
    rw [List.flatMap_cons, evalItems_append, evalItems_splice, evalItems_cons, ih]
    cases asOperand e (eval context e) <;> rfl

end Items

/-- A list has the same value, or fails in the same way, whether the lists among its items are laid out
when it is read or when it is evaluated. -/
theorem eval_ofItems (context : Context) (items : List Expr) :
    eval context (.ofItems items) = eval context (.list items) := by
  rw [Expr.ofItems, eval_list, eval_list, evalItems_flatMap_splice]

end PullQuery.Query
