import PullQuery.Proofs.Query.Faults
import PullQuery.Proofs.Query.Selecting
import PullQuery.Proofs.Value.LetterCase

/-! Letter case to the right of a comparison. Words there, alone or in a list, may be written in other
letters with the same lower case: whatever stands on the left and around the comparison, the query has
the same value or fails as before. -/
namespace PullQuery.Query
open Text

def BinaryOp.folds : BinaryOp → Bool
  | equal | notEqual | contains | isIn | notIn => true
  | less | lessEqual | greater | greaterEqual | add | subtract | and | or => false

namespace Expr

def word? : Expr → Option String
  | .text s | .name s => some s
  | _ => none

mutual

/-- The same trees but for the letter case of words to the right of comparisons that ignore it. -/
inductive Recased : Expr → Expr → Prop
  | same (e : Expr) : Recased e e
  | unary {e f : Expr} (op : UnaryOp) (operand : Recased e f) : Recased (.unary op e) (.unary op f)
  | binary {left right first second : Expr} (op : BinaryOp) (lefts : Recased left first)
      (rights : Recased right second) : Recased (.binary op left right) (.binary op first second)
  | comparison {op : BinaryOp} {left right first second : Expr} (folds : op.folds = true)
      (lefts : Recased left first) (rights : OperandRecased right second) :
      Recased (.binary op left right) (.binary op first second)
  | list {items others : List Expr} (each : EachRecased items others) :
      Recased (.list items) (.list others)
  | call {arguments others : List Expr} (function : String) (each : EachRecased arguments others) :
      Recased (.call function arguments) (.call function others)
  | all {parts others : List Expr} (each : EachRecased parts others) : Recased (.all parts) (.all others)

inductive EachRecased : List Expr → List Expr → Prop
  | nil : EachRecased [] []
  | cons {e f : Expr} {es fs : List Expr} (first : Recased e f) (rest : EachRecased es fs) :
      EachRecased (e :: es) (f :: fs)

/-- The same operands but for their letter case, if they are words, or that of their items. -/
inductive OperandRecased : Expr → Expr → Prop
  | tree {e f : Expr} (recased : e.Recased f) : OperandRecased e f
  | word {e f : Expr} {s t : String} (first : e.word? = some s) (second : f.word? = some t)
      (folded : lower s = lower t) : OperandRecased e f
  | list {items others : List Expr} (each : EachOperandRecased items others) :
      OperandRecased (.list items) (.list others)

inductive EachOperandRecased : List Expr → List Expr → Prop
  | nil : EachOperandRecased [] []
  | cons {e f : Expr} {es fs : List Expr} (first : OperandRecased e f)
      (rest : EachOperandRecased es fs) : EachOperandRecased (e :: es) (f :: fs)

end
end Expr

private theorem compares_of_folds {op : BinaryOp} (folds : op.folds = true) :
    op.compares = true := by
  cases op <;> first | rfl | simp [BinaryOp.folds] at folds

private theorem binaryValue_recased {op : BinaryOp} (folds : op.folds = true) {value other : Value}
    (recased : value.Recased other) (now : Time.Instant) (left : Value) :
    binaryValue now op left value = binaryValue now op left other := by
  have alone := recased.unwrapped
  cases op with
  | equal | notEqual => simp only [binaryValue, binaryValueBy, comparison, alone.equal]
  | contains => simp only [binaryValue, binaryValueBy, comparison, alone.contains]
  | isIn | notIn => simp only [binaryValue, binaryValueBy, comparison, alone.sharesItem]
  | less | lessEqual | greater | greaterEqual | add | subtract | and | or => simp [BinaryOp.folds] at folds

inductive Outcomes {α : Type} (related : α → α → Prop) : Except EvalError α → Except EvalError α → Prop
  | error (err : EvalError) : Outcomes related (.error err) (.error err)
  | ok {value other : α} (relate : related value other) : Outcomes related (.ok value) (.ok other)

section Outcomes
variable {α β : Type} {related : α → α → Prop} {first second : Except EvalError α}

private theorem Outcomes.bind_eq (outcomes : Outcomes related first second)
    {next : α → Except EvalError β}
    (agree : ∀ value other, related value other → next value = next other) :
    first >>= next = second >>= next := by
  cases outcomes with
  | error err => rfl
  | ok relate => exact agree _ _ relate

theorem Outcomes.bind {near : β → β → Prop} (outcomes : Outcomes related first second)
    {next later : α → Except EvalError β}
    (agree : ∀ value other, related value other → Outcomes near (next value) (later other)) :
    Outcomes near (first >>= next) (second >>= later) := by
  cases outcomes with
  | error err => exact .error err
  | ok relate => exact agree _ _ relate

private theorem outcomes_refl (reflexive : ∀ value, related value value)
    (outcome : Except EvalError α) :
    Outcomes related outcome outcome := by
  cases outcome with
  | error err => exact .error err
  | ok value => exact .ok (reflexive value)

end Outcomes

private theorem asOperand_word {e : Expr} {s : String} (word : e.word? = some s)
    (context : Context) :
    asOperand e (eval context e) = .ok (.text s) := by
  cases e with
  | text _ | name _ =>
    obtain rfl := Option.some.inj word
    rfl
  | _ => simp [Expr.word?] at word

private theorem asOperand_recased {e f : Expr} {context : Context} (recased : e.Recased f)
    (same : eval context e = eval context f) :
    asOperand e (eval context e) = asOperand f (eval context f) := by
  cases recased with
  | same => rfl
  | _ => exact same

mutual

private theorem eval_recased (context : Context) {e f : Expr} (recased : e.Recased f) :
    eval context e = eval context f := by
  match recased with
  | .same e => rfl
  | .unary op operand => rw [eval, eval, eval_recased context operand]
  | .binary op lefts rights =>
    have operand := asOperand_recased rights (eval_recased context rights)
    rw [eval_binary, eval_binary, eval_recased context lefts, operand, eval_recased context rights]
  | .comparison folds lefts rights =>
    rw [eval_binary, eval_binary, eval_recased context lefts, if_pos (compares_of_folds folds),
      if_pos (compares_of_folds folds)]
    refine congrArg _ (funext fun left => ?_)
    exact (asOperand_operandRecased context rights).bind_eq fun _ _ value =>
      binaryValue_recased folds value context.now left
  | .list each => rw [eval, eval, evalOperands_recased context each]
  | .call function each => rw [eval, eval, evalOperands_recased context each]
  | .all each => rw [eval, eval, evalAll_recased context each]
termination_by structural recased

theorem evalOperands_recased (context : Context) {es fs : List Expr} (each : Expr.EachRecased es fs) :
    evalOperands context es = evalOperands context fs := by
  match each with
  | .nil => rfl
  | .cons first rest =>
    have operand := asOperand_recased first (eval_recased context first)
    rw [evalOperands_cons, evalOperands_cons, operand, evalOperands_recased context rest]
termination_by structural each

theorem evalAll_recased (context : Context) {es fs : List Expr} (each : Expr.EachRecased es fs) :
    evalAll context es = evalAll context fs := by
  match each with
  | .nil => rfl
  | .cons first rest =>
    rw [evalAll, evalAll, eval_recased context first, evalAll_recased context rest]
termination_by structural each

theorem asOperand_operandRecased (context : Context) {e f : Expr} (recased : e.OperandRecased f) :
    Outcomes Value.Recased (asOperand e (eval context e)) (asOperand f (eval context f)) := by
  match recased with
  | .tree recased =>
    rw [asOperand_recased recased (eval_recased context recased)]
    exact outcomes_refl (fun value => .item (.same value)) _
  | .word first second folded =>
    rw [asOperand_word first, asOperand_word second]
    exact .ok (.item (.text folded))
  | .list each =>
    refine (evalOperands_operandRecased context each).bind fun _ _ values => ?_
    exact .ok (.list (Value.flatMap_items values))
termination_by structural recased

theorem evalOperands_operandRecased (context : Context) {es fs : List Expr}
    (each : Expr.EachOperandRecased es fs) :
    Outcomes (List.Forall₂ Value.Recased) (evalOperands context es) (evalOperands context fs) := by
  match each with
  | .nil => exact .ok .nil
  | .cons first rest =>
    rw [evalOperands_cons, evalOperands_cons]
    refine (asOperand_operandRecased context first).bind fun _ _ value => ?_
    refine (evalOperands_operandRecased context rest).bind fun _ _ values => ?_
    exact .ok (.cons value values)
termination_by structural each

end

/-- Queries that differ only in the letter case of words to the right of comparisons that ignore it have
the same value for every record at every time, or fail alike. -/
theorem letter_case_on_the_right_is_ignored {e f : Expr} (recased : e.Recased f) (record : PullRequest)
    (now : Time.Instant) : eval ⟨record, now⟩ e = eval ⟨record, now⟩ f :=
  eval_recased ⟨record, now⟩ recased

/-- `updatedAt = '…' AND labels IN (number, …)` -/
def datedQuery (date : String) (label : Expr) : Expr :=
  .binary .and (.binary .equal (.name "updatedAt") (.text date))
    (.binary .isIn (.name "labels") (.list [.call Function.reviewDate [.name "approved"], label]))

theorem letter_case_on_the_right_is_ignored_time :
    (datedQuery "1970-01-01T00:00:00Z" (.name "docs")).Recased
        (datedQuery "1970-01-01t00:00:00z" (.text "DOCS")) ∧
      eval ⟨.sample, .epoch⟩ (datedQuery "1970-01-01T00:00:00Z" (.name "docs")) =
        eval ⟨.sample, .epoch⟩ (datedQuery "1970-01-01t00:00:00z" (.text "DOCS")) ∧
      eval ⟨.sample, .epoch⟩ (datedQuery "1970-01-01t00:00:00z" (.text "DOCS")) = .ok (.boolean true) := by
  have date : Expr.OperandRecased (.text "1970-01-01T00:00:00Z") (.text "1970-01-01t00:00:00z") :=
    .word rfl rfl (by decide +kernel)
  have label : Expr.OperandRecased (.name "docs") (.text "DOCS") := .word rfl rfl (by decide +kernel)
  have recased : (datedQuery "1970-01-01T00:00:00Z" (.name "docs")).Recased
      (datedQuery "1970-01-01t00:00:00z" (.text "DOCS")) :=
    .binary .and (.comparison rfl (.same _) date)
      (.comparison rfl (.same _) (.list (.cons (.tree (.same _)) (.cons label .nil))))
  exact ⟨recased, letter_case_on_the_right_is_ignored recased .sample .epoch, by rfl⟩

end PullQuery.Query
