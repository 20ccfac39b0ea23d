import PullQuery.Query.Grammar
import Mathlib.Data.List.Induction

/-! Tables built by registering operators one after the other. The parser asks a table for the
precedences of binary operators and for the set of unary ones, and gets the same answers from any
registrations that end in the same precedences and come by the same unary operators. Two such tables
are equal only if they came by the unary operators in the same order, too. -/
namespace PullQuery.Query

inductive Registration where
  | binary (op : BinaryOp) (precedence : Nat)
  | unary (op : UnaryOp)
  deriving DecidableEq, Repr

namespace Registration

def addTo (table : OperatorTable) : Registration → OperatorTable
  | binary op precedence => table.addBinary op precedence
  | unary op => table.addUnary op

def precedence? (op : BinaryOp) : Registration → Option Nat
  | binary other precedence => if other = op then some precedence else none
  | unary _ => none

def unary? : Registration → Option UnaryOp
  | binary _ _ => none
  | unary op => some op

end Registration

def lastPrecedence? (registrations : List Registration) (op : BinaryOp) : Option Nat :=
  registrations.reverse.findSome? (Registration.precedence? op)

def firstUnary? (registrations : List Registration) : Option UnaryOp :=
  registrations.findSome? Registration.unary?

namespace OperatorTable

def ofRegistrations (registrations : List Registration) : OperatorTable :=
  registrations.foldl Registration.addTo empty

section Tables
variable (table : OperatorTable) (op : BinaryOp) (sign other : UnaryOp)

private theorem precedence_addUnary : (table.addUnary sign).precedence = table.precedence := by
  unfold addUnary
  split <;> rfl

private theorem mem_addUnary :
    other ∈ (table.addUnary sign).unary ↔ other ∈ table.unary ∨ other = sign := by
  unfold addUnary
  split
  · rename_i known
    refine ⟨.inl, ?_⟩
    rintro (listed | rfl)
    · exact listed
    · exact known
  · simp

private theorem nodup_addUnary (nodup : table.unary.Nodup) : (table.addUnary sign).unary.Nodup := by
  unfold addUnary
  split
  · exact nodup
  · rename_i unknown
    have apart : ∀ a ∈ table.unary, a ≠ sign := fun a listed same => unknown (same ▸ listed)
    simpa [List.nodup_append, nodup] using apart

private theorem head?_addUnary :
    (table.addUnary sign).unary.head? = table.unary.head?.or (some sign) := by
  unfold addUnary
  split
  · rename_i known
    obtain ⟨first, rest, same⟩ := List.exists_cons_of_ne_nil (List.ne_nil_of_mem known)
    simp [same]
  · simp

end Tables

theorem ofRegistrations_append_singleton (registrations : List Registration)
    (last : Registration) :
    ofRegistrations (registrations ++ [last]) = last.addTo (ofRegistrations registrations) :=
  List.foldl_append

section Registrations
variable (registrations : List Registration)

private theorem precedence_ofRegistrations (op : BinaryOp) :
    (ofRegistrations registrations).precedence op = lastPrecedence? registrations op := by
  induction registrations using List.reverseRecOn with
  | nil => rfl
  | append_singleton registrations last ih =>
    rw [ofRegistrations_append_singleton, lastPrecedence?, List.reverse_append,
      List.reverse_singleton, List.singleton_append, List.findSome?_cons]
    cases last with
    | unary sign => exact (congrFun (precedence_addUnary _ sign) op).trans ih
    | binary other precedence =>
      by_cases same : other = op
      · simp [Registration.addTo, Registration.precedence?, addBinary, same]
      · simp [Registration.addTo, Registration.precedence?, addBinary, same, Ne.symm same, ih,
          lastPrecedence?]

private theorem mem_unary_ofRegistrations (op : UnaryOp) :
    op ∈ (ofRegistrations registrations).unary ↔ .unary op ∈ registrations := by
  induction registrations using List.reverseRecOn with
  | nil => simp [ofRegistrations, empty]
  | append_singleton registrations last ih =>
    rw [ofRegistrations_append_singleton, List.mem_append, ← ih]
    cases last with
    | unary sign => simp [Registration.addTo, mem_addUnary]
    | binary other precedence => simp [Registration.addTo, addBinary]

private theorem nodup_unary_ofRegistrations : (ofRegistrations registrations).unary.Nodup := by
  induction registrations using List.reverseRecOn with
  | nil => exact .nil
  | append_singleton registrations last ih =>
    rw [ofRegistrations_append_singleton]
    cases last with
    | unary sign => exact nodup_addUnary _ sign ih
    | binary other precedence => exact ih

private theorem head?_unary_ofRegistrations :
    (ofRegistrations registrations).unary.head? = firstUnary? registrations := by
  induction registrations using List.reverseRecOn with
  | nil => rfl
  | append_singleton registrations last ih =>
    rw [ofRegistrations_append_singleton, firstUnary?, List.findSome?_append, ← firstUnary?, ← ih]
    cases last with
    | unary sign => exact head?_addUnary _ sign
    | binary other precedence => exact (Option.or_none).symm

end Registrations

/-- There are only two signs, so that the first of some tells their order. -/
theorem eq_of_head? {first second : List UnaryOp} (nodup : first.Nodup) (unique : second.Nodup)
    (members : ∀ op, op ∈ first ↔ op ∈ second) (heads : first.head? = second.head?) :
    first = second := by
  have perm : first.Perm second := (List.perm_ext_iff_of_nodup nodup unique).mpr members
  match first, second with
  | [], second => exact (List.nil_perm.mp perm).symm
  | first, [] => exact List.perm_nil.mp perm
  | a :: rest, b :: others =>
    obtain rfl : a = b := Option.some.inj heads
    have behind : rest.Perm others := (List.perm_cons a).mp perm
    match rest with
    | [] => rw [List.nil_perm.mp behind]
    | [c] => rw [List.singleton_perm.mp behind]
    | c :: d :: _ =>
      -- Of three signs two are the same.
      revert nodup
      cases a <;> cases c <;> cases d <;> simp

structure Agrees (first second : OperatorTable) : Prop where
  precedence : first.precedence = second.precedence
  unary : ∀ op, op ∈ first.unary ↔ op ∈ second.unary

namespace Agrees
variable {first second : OperatorTable} (agrees : first.Agrees second)
include agrees

private theorem binary? (token : Token) : first.binary? token = second.binary? token := by
  simp [OperatorTable.binary?, agrees.precedence]

private theorem unary? (token : Token) : first.unary? token = second.unary? token := by
  simp [OperatorTable.unary?, agrees.unary]

end Agrees
end OperatorTable

namespace Grammar
variable {first second : OperatorTable} (agrees : first.Agrees second)
include agrees

private theorem start?_congr (s : State) (token : Token) :
    s.start? first token = s.start? second token := by
  cases token with
  | minus | plus => exact congrArg (Option.map _) (agrees.unary? _)
  | _ => rfl

private theorem step?_congr (s : State) (token : Token) :
    s.step? first token = s.step? second token := by
  unfold State.step?
  cases s.operand with
  | none => simp only [start?_congr agrees]
  | some operand =>
    cases token <;> simp only [State.continue?, start?_congr agrees, agrees.binary?]

private theorem parseFrom_congr (ending : Except LexError Nat) (s : State) (lexemes : List Lexeme) :
    parseFrom first ending s lexemes = parseFrom second ending s lexemes := by
  induction lexemes generalizing s with
  | nil => rfl
  | cons lexeme rest ih =>
    rw [parseFrom, parseFrom, step?_congr agrees]
    split
    · exact ih _
    · rfl

end Grammar

open OperatorTable

/-- Registrations that come by the same unary operators and end in the same precedences give tables
with which every text has the same tree or the same fault. The tables are equal exactly if the same
unary operator comes first. -/
theorem tables_equal_iff_same_first_unary {first second : List Registration}
    (unary : ∀ op, .unary op ∈ first ↔ .unary op ∈ second)
    (binary : ∀ op, lastPrecedence? first op = lastPrecedence? second op) :
    (∀ cs, parse (ofRegistrations first) cs = parse (ofRegistrations second) cs) ∧
      (ofRegistrations first = ofRegistrations second ↔ firstUnary? first = firstUnary? second) := by
  have agrees : (ofRegistrations first).Agrees (ofRegistrations second) :=
    ⟨funext fun op => by simp only [precedence_ofRegistrations, binary],
      fun op => by simp only [mem_unary_ofRegistrations, unary]⟩
  refine ⟨fun cs => Grammar.parseFrom_congr agrees _ _ _, fun same => ?_, fun heads => ?_⟩
  · rw [← head?_unary_ofRegistrations, same, head?_unary_ofRegistrations]
  · have signs := eq_of_head? (nodup_unary_ofRegistrations first) (nodup_unary_ofRegistrations second)
      agrees.unary (by simpa only [head?_unary_ofRegistrations] using heads)
    have precedences := agrees.precedence
    generalize ofRegistrations first = table at *
    generalize ofRegistrations second = other at *
    cases table
    cases other
    exact congrArg₂ OperatorTable.mk precedences signs

theorem tables_equal_iff_same_first_unary_reregistered :
    let first : List Registration := [.binary .or 9, .unary .plus, .binary .equal 4, .unary .negate,
      .binary .or 1, .unary .plus]
    let second : List Registration := [.unary .plus, .binary .or 1, .unary .negate, .binary .equal 7,
      .unary .negate, .binary .equal 4]
    ((∀ op, .unary op ∈ first ↔ .unary op ∈ second) ∧
        ∀ op, lastPrecedence? first op = lastPrecedence? second op) ∧
      (∀ cs, parse (ofRegistrations first) cs = parse (ofRegistrations second) cs) ∧
        ofRegistrations first = ofRegistrations second := by
  intro first second
  have unary : ∀ op, .unary op ∈ first ↔ .unary op ∈ second := by
    intro op
    cases op <;> decide
  have binary : ∀ op, lastPrecedence? first op = lastPrecedence? second op := by
    intro op
    cases op <;> rfl
  obtain ⟨parses, equal⟩ := tables_equal_iff_same_first_unary unary binary
  exact ⟨⟨unary, binary⟩, parses, equal.mpr rfl⟩

def standardWith (signs : List UnaryOp) : List Registration :=
  [.binary .or 1, .binary .and 2, .binary .isIn 3, .binary .notIn 3, .binary .equal 4,
    .binary .notEqual 4, .binary .contains 4, .binary .less 4, .binary .lessEqual 4,
    .binary .greater 4, .binary .greaterEqual 4, .binary .add 5, .binary .subtract 5] ++
    signs.map .unary

/-- The table of the query language with its signs registered the other way round is another one. -/
theorem tables_differ_by_order_of_signs :
    ofRegistrations (standardWith [.negate, .plus]) = .standard ∧
      ofRegistrations (standardWith [.plus, .negate]) ≠ .standard ∧
        ¬ ∀ first second : List Registration, (∀ op, .unary op ∈ first ↔ .unary op ∈ second) →
          (∀ op, lastPrecedence? first op = lastPrecedence? second op) →
            ofRegistrations first = ofRegistrations second ∧
              ∀ cs, parse (ofRegistrations first) cs = parse (ofRegistrations second) cs := by
  have same : ofRegistrations (standardWith [.negate, .plus]) = .standard := by decide
  have other : ofRegistrations (standardWith [.plus, .negate]) ≠ .standard := by decide
  refine ⟨same, other, fun claim => ?_⟩
  obtain ⟨equal, -⟩ := claim (standardWith [.plus, .negate]) (standardWith [.negate, .plus])
    (fun op => by cases op <;> decide) (fun op => by cases op <;> rfl)
  exact other (equal.trans same)

end PullQuery.Query
