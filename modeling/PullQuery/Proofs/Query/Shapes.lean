import PullQuery.Proofs.Number.Unsigned
import PullQuery.Proofs.Query.Climbing
import PullQuery.Proofs.Query.Cuts
import PullQuery.Proofs.Query.Grouping

/-! The shape of parsed trees. Whatever the parser holds between two tokens is made of trees that can be
written as queries, so its tree is one of them: lists hold no lists, several expressions stand side by
side or none, and there are no operators but those of the table. -/
namespace PullQuery.Query
open PullQuery.Number Lexeme

namespace Expr

mutual

def nodes : Expr → List Expr
  | unary op e => unary op e :: nodes e
  | binary op left right => binary op left right :: (nodes left ++ nodes right)
  | list items => list items :: nodesOfAll items
  | call function arguments => call function arguments :: nodesOfAll arguments
  | all parts => all parts :: nodesOfAll parts
  | e => [e]

def nodesOfAll : List Expr → List Expr
  | [] => []
  | e :: rest => nodes e ++ nodesOfAll rest

end

private theorem mem_nodesOfAll {node : Expr} {items : List Expr} :
    node ∈ nodesOfAll items ↔ ∃ e ∈ items, node ∈ e.nodes := by
  induction items with
  | nil => simp [nodesOfAll]
  | cons e rest ih => simp [nodesOfAll, ih]

/-- What one node of a parsed tree is like: numbers have no sign, operators are those of the table, no
item of a list or call is a list, and expressions stand side by side if there are several. -/
def IsSound (table : OperatorTable) : Expr → Prop
  | integer n => 0 ≤ n.toInt
  | float x => x.isNaN = false ∧ 0 ≤ x
  | unary op _ => op ∈ table.unary
  | binary op _ _ => (table.precedence op).isSome = true
  | list items | call _ items => ∀ e ∈ items, e.isList = false
  | all parts => 2 ≤ parts.length
  | _ => True

variable {table : OperatorTable}

private theorem ReadsAs.isSound {whole fraction : List Char} {x : Float}
    (reads : ReadsAs whole fraction x) :
    (float x).IsSound table := reads.value ▸ decimalFloat_nonnegative whole fraction

theorem WellFormed.isSound {e : Expr} (formed : e.WellFormed table) :
    ∀ node ∈ e.nodes, node.IsSound table := by
  induction formed with
  | integer nonnegative => simpa [nodes, IsSound] using nonnegative
  | float reads => simpa [nodes] using ReadsAs.isSound reads
  | text | boolean | null | name => simp [nodes, IsSound]
  | unary known operand ih => simpa [nodes] using ⟨known, ih⟩
  | binary known first second ihFirst ihSecond =>
    rintro node (_ | ⟨_, inside⟩)
    · exact known
    · exact (List.mem_append.mp inside).elim (ihFirst node) (ihSecond node)
  | list flat each ih | call single flat each ih =>
    rintro node (_ | ⟨_, inside⟩)
    · exact flat
    · obtain ⟨e, member, within⟩ := mem_nodesOfAll.mp inside
      exact ih e member node within
  | all several each ih =>
    rintro node (_ | ⟨_, inside⟩)
    · exact several
    · obtain ⟨e, member, within⟩ := mem_nodesOfAll.mp inside
      exact ih e member node within

theorem WellFormed.splice {items : List Expr} (each : ∀ e ∈ items, e.WellFormed table) :
    ∀ e ∈ items.flatMap Expr.splice, e.isList = false ∧ e.WellFormed table := by
  intro e member
  obtain ⟨item, listed, inside⟩ := List.mem_flatMap.mp member
  have formed := each item listed
  cases formed with
  | list flat inner => exact ⟨flat e inside, inner e inside⟩
  | _ =>
    obtain rfl := List.mem_singleton.mp inside
    exact ⟨rfl, each _ listed⟩

private theorem WellFormed.ofParts {parts : List Expr} (some : parts ≠ [])
    (each : ∀ e ∈ parts, e.WellFormed table) : (Expr.ofParts parts).WellFormed table := by
  match parts with
  | [e] => exact each e (.head _)
  | _ :: _ :: _ => exact .all (by simp) each

end Expr

private theorem Lexes.exists_fronts {cs : List Char} {tokens : List Token} (lexes : Lexes cs tokens)
    {token : Token} (member : token ∈ tokens) : ∃ source after, Fronts source after token := by
  induction lexes with
  | nil => simp at member
  | blank blank lexes ih => exact ih member
  | token fronts lexes ih =>
    rcases List.mem_cons.mp member with rfl | later
    · exact ⟨_, _, fronts⟩
    · exact ih later

private theorem nonnegative_of_readWord? {digits : List Char} {n : Int64}
    (read : readWord? digits = some n) :
    0 ≤ n.toInt := by
  unfold readWord? at read
  split at read
  · rw [toInt_of_word? read]
    exact Int.natCast_nonneg _
  · simp at read

namespace Grammar
variable {table : OperatorTable} {s next : State} {token : Token}

private theorem of_integer {source after : List Char} {n : Int64}
    (fronts : Fronts source after (.integer n)) :
    0 ≤ n.toInt := by
  cases fronts with
  | symbol found =>
    have listed := mem_symbols found
    simp [Token.symbols] at listed
  | keyword _ _ _ keyword =>
    have listed := mem_keywords keyword
    simp [Token.keywords] at listed
  | integer all read => exact nonnegative_of_readWord? read

private theorem of_float {source after : List Char} {x : Float}
    (fronts : Fronts source after (.float x)) :
    ∃ whole fraction, ReadsAs whole fraction x := by
  cases fronts with
  | symbol found =>
    have listed := mem_symbols found
    simp [Token.symbols] at listed
  | keyword _ _ _ keyword =>
    have listed := mem_keywords keyword
    simp [Token.keywords] at listed
  | float all decimals start some => exact ⟨_, _, start, some, all, decimals, rfl⟩

theorem wellFormed_of_fronts {source after : List Char} {operand : Operand}
    (fronts : Fronts source after token) (leaf : Operand.ofToken? token = some operand) :
    operand.expr.WellFormed table := by
  cases token with
  | integer n =>
    obtain rfl := Option.some.inj leaf
    exact .integer (of_integer fronts)
  | float x =>
    obtain rfl := Option.some.inj leaf
    obtain ⟨whole, fraction, reads⟩ := of_float fronts
    exact .float reads
  | text s =>
    obtain rfl := Option.some.inj leaf
    exact .text s
  | boolean b =>
    obtain rfl := Option.some.inj leaf
    exact .boolean b
  | null =>
    obtain rfl := Option.some.inj leaf
    exact .null
  | name s =>
    obtain rfl := Option.some.inj leaf
    obtain ⟨rfl, isName, -⟩ := fronts.of_name
    refine .name (tokenize_iff.mpr ?_)
    have alone := isName.fronts (show Text.StopsRun isNamePart [] by simp [Text.StopsRun])
    rw [String.ofList_toList] at alone
    simpa using Lexes.token alone .nil
  | _ => simp [Operand.ofToken?] at leaf

def Pending.Formed (table : OperatorTable) : Pending → Prop
  | unary op => op ∈ table.unary
  | binary left op _ => left.WellFormed table ∧ (table.precedence op).isSome = true

structure Group.Formed (table : OperatorTable) (group : Group) : Prop where
  function : ∀ function ∈ group.function, tokenize function.toList = .ok [.name function]
  items : ∀ e ∈ group.items, e.WellFormed table
  parts : ∀ e ∈ group.parts, e.WellFormed table
  pending : ∀ operator ∈ group.pending, operator.Formed table

/-- The parser holds nothing but trees that can be written and operators of the table. -/
structure State.Formed (table : OperatorTable) (s : State) : Prop where
  groups : ∀ group ∈ s.groups, group.Formed table
  parts : ∀ e ∈ s.parts, e.WellFormed table
  pending : ∀ operator ∈ s.pending, operator.Formed table
  operand : ∀ operand ∈ s.operand, operand.expr.WellFormed table

private theorem wellFormed_reduce (precedence : Nat) {pending : List Pending} {e : Expr}
    (waiting : ∀ operator ∈ pending, operator.Formed table) (formed : e.WellFormed table) :
    (∀ operator ∈ (reduce precedence pending e).1, operator.Formed table) ∧
      (reduce precedence pending e).2.WellFormed table := by
  induction pending generalizing e with
  | nil => exact ⟨waiting, formed⟩
  | cons operator rest ih =>
    have outer : ∀ operator ∈ rest, operator.Formed table :=
      fun operator member => waiting operator (.tail _ member)
    cases operator with
    | unary op =>
      have known : op ∈ table.unary := waiting _ (.head _)
      exact ih outer (.unary known formed)
    | binary left op own =>
      obtain ⟨first, known⟩ : left.WellFormed table ∧ (table.precedence op).isSome = true :=
        waiting _ (.head _)
      rw [reduce]
      split
      · exact ih outer (.binary known first formed)
      · exact ⟨waiting, formed⟩

private theorem wellFormed_reduceAll {pending : List Pending} {e : Expr}
    (waiting : ∀ operator ∈ pending, operator.Formed table) (formed : e.WellFormed table) :
    (reduceAll pending e).WellFormed table := by
  have reduced := (wellFormed_reduce 0 waiting formed).2
  rwa [reduce_zero] at reduced

private theorem State.Formed.run (formed : s.Formed table) {e : Expr} (last : e.WellFormed table) :
    (s.run e).WellFormed table := by
  refine .ofParts (by simp) fun part member => ?_
  rcases List.mem_cons.mp (List.mem_reverse.mp member) with rfl | earlier
  · exact wellFormed_reduceAll formed.pending last
  · exact formed.parts part earlier

private theorem Group.Formed.close {group : Group} (formed : group.Formed table) {items : List Expr}
    (each : ∀ e ∈ items, e.WellFormed table) : (group.close items).WellFormed table := by
  have spliced := Expr.WellFormed.splice each
  have flat := fun e member => (spliced e member).1
  have inner := fun e member => (spliced e member).2
  unfold Group.close
  split
  · rename_i function named
    exact .call (formed.function function named) flat inner
  · split
    · exact each _ (.head _)
    · exact .list flat inner

private theorem State.Formed.inside (formed : s.Formed table) {group : Group} {outer : List Group}
    (inside : s.groups = group :: outer) :
    group.Formed table ∧ ∀ other ∈ outer, other.Formed table :=
  List.forall_mem_cons.mp (inside ▸ formed.groups)

theorem Group.Formed.closed {group : Group} {outer : List Group} (formed : group.Formed table)
    (groups : ∀ group ∈ outer, group.Formed table) {items : List Expr}
    (each : ∀ e ∈ items, e.WellFormed table) : (State.closed group outer items).Formed table := by
  refine ⟨groups, formed.parts, formed.pending, ?_⟩
  rintro operand ⟨⟩
  exact formed.close each

private theorem State.Formed.opened (formed : s.Formed table) {function : Option String}
    (named : ∀ name ∈ function, tokenize name.toList = .ok [.name name]) :
    (s.opened function).Formed table := by
  refine ⟨?_, by simp [State.opened], by simp [State.opened], by simp [State.opened]⟩
  rintro group (_ | ⟨_, outer⟩)
  · exact ⟨named, by simp, formed.parts, formed.pending⟩
  · exact formed.groups group outer

private theorem Starts.formed {source after : List Char} (starts : Starts table s token next)
    (fronts : Fronts source after token) (formed : s.Formed table) : next.Formed table := by
  cases starts with
  | operand leaf =>
    refine ⟨formed.groups, formed.parts, formed.pending, ?_⟩
    rintro operand ⟨⟩
    exact wellFormed_of_fronts fronts leaf
  | unary known =>
    refine ⟨formed.groups, formed.parts, ?_, formed.operand⟩
    rintro operator (_ | ⟨_, outer⟩)
    · simpa [Pending.Formed] using (Option.filter_eq_some_iff.mp known).2
    · exact formed.pending operator outer
  | openParen => exact formed.opened (by simp)

theorem Moves.formed {source after : List Char} (moves : Moves table s token next)
    (fronts : Fronts source after token) (formed : s.Formed table) : next.Formed table := by
  cases moves with
  | start idle starts => exact starts.formed fronts formed
  | closeEmpty idle inside parts pending items =>
    obtain ⟨inner, outer⟩ := formed.inside inside
    exact inner.closed outer (by simp)
  | close stands inside =>
    obtain ⟨inner, outer⟩ := formed.inside inside
    refine inner.closed outer ?_
    intro e member
    rcases List.mem_cons.mp (List.mem_reverse.mp member) with rfl | earlier
    · exact formed.run (formed.operand _ stands)
    · exact inner.items e earlier
  | separate stands inside =>
    obtain ⟨inner, outer⟩ := formed.inside inside
    refine ⟨?_, by simp, by simp, by simp⟩
    rintro other (_ | ⟨_, member⟩)
    · refine ⟨inner.function, ?_, inner.parts, inner.pending⟩
      rintro e (_ | ⟨_, earlier⟩)
      · exact formed.run (formed.operand _ stands)
      · exact inner.items e earlier
    · exact outer other member
  | @apply function stands =>
    have idle : State.Formed table { s with operand := none } :=
      ⟨formed.groups, formed.parts, formed.pending, by simp⟩
    have name : (Expr.name function).WellFormed table := formed.operand _ stands
    refine idle.opened ?_
    rintro _ ⟨⟩
    cases name with
    | name single => exact single
  | @binary token operand op precedence stands known =>
    obtain ⟨waiting, left⟩ :=
      wellFormed_reduce precedence formed.pending (formed.operand _ stands)
    refine ⟨formed.groups, formed.parts, ?_, by simp⟩
    rintro operator (_ | ⟨_, outer⟩)
    · exact ⟨left, by simp [(binary?_eq_some.mp known).2]⟩
    · exact waiting operator outer
  | beside stands ends starts =>
    refine starts.formed fronts ⟨formed.groups, ?_, by simp, by simp⟩
    rintro part (_ | ⟨_, earlier⟩)
    · exact wellFormed_reduceAll formed.pending (formed.operand _ stands)
    · exact formed.parts part earlier

private theorem run_formed {cs : List Char} {tokens : List Token} {final : State}
    (lexes : Lexes cs tokens)
    (steps : Grammar.run table initial tokens = some final) : final.Formed table := by
  have blank : initial.Formed table :=
    ⟨by simp [initial], by simp [initial], by simp [initial], by simp [initial]⟩
  refine run_induction steps blank fun member moves formed => ?_
  obtain ⟨source, after, fronts⟩ := lexes.exists_fronts member
  exact moves.formed fronts formed

end Grammar

open Grammar

/-- Every node of a parsed tree is sound, except that a text without any token stands for no
expressions side by side. -/
theorem parsed_is_sound {table : OperatorTable} {cs : List Char} {e : Expr}
    (parsed : parse table cs = .ok e) :
    (e = .all [] ∧ tokenize cs = .ok []) ∨ ∀ node ∈ e.nodes, node.IsSound table := by
  obtain ⟨tokens, final, lexes, steps, finished⟩ := parse_iff.mp parsed
  have formed := run_formed lexes steps
  unfold State.finish at finished
  split at finished
  · rename_i operand stands closed
    obtain rfl := Except.ok.inj finished
    exact .inr (formed.run (formed.operand _ stands)).isSound
  · simp at finished
  · rename_i idle
    split at finished
    · rename_i ends
      obtain rfl := Except.ok.inj finished
      have closed := List.isEmpty_iff.mp ends.1
      have settled := List.isEmpty_iff.mp ends.2
      obtain rfl := run_notBlank steps idle closed settled
      obtain rfl := Option.some.inj steps
      exact .inl ⟨rfl, tokenize_iff.mpr lexes⟩
    · simp at finished

theorem parsed_is_sound_spliced :
    let cs := "-sum((a, (1, 2.5)), ()) = (b 'c' OR d) 7".toList
    let e : Expr := .all [.binary .equal
      (.unary .negate (.call "sum" [.name "a", .integer 1, .float (decimalFloat ['2'] ['5'])]))
      (.all [.name "b", .binary .or (.text "c") (.name "d")]), .integer 7]
    parse .signsOnly cs = .ok e ∧
      ((e = .all [] ∧ tokenize cs = .ok []) ∨ ∀ node ∈ e.nodes, node.IsSound .signsOnly) := by
  intro cs e
  have read : tokenize cs = .ok [.minus, .name "sum", .openParen, .openParen, .name "a", .comma,
      .openParen, .integer 1, .comma, .float (decimalFloat ['2'] ['5']), .closeParen, .closeParen,
      .comma, .openParen, .closeParen, .closeParen, .equal, .openParen, .name "b", .text "c", .or,
      .name "d", .closeParen, .integer 7] := by decide +kernel
  have parsed : parse .signsOnly cs = .ok e := parse_iff.mpr ⟨_, _, tokenize_iff.mp read, rfl, rfl⟩
  exact ⟨parsed, parsed_is_sound parsed⟩

end PullQuery.Query
