import PullQuery.Proofs.Query.Grouping
import PullQuery.Proofs.Query.Injection
import PullQuery.Proofs.Query.Parentheses
import PullQuery.Proofs.Query.RoundTrip
import PullQuery.Proofs.Query.Selecting

/-! Queries as a Boolean algebra. Two queries in parentheses with OR between them select what either of
them selects; with AND or nothing between them they select what both of them do. -/
namespace PullQuery.Query
open PullQuery.Text Grammar

section Reading
variable {table : OperatorTable} {cs more : List Char} {e f : Expr}

private theorem exists_fills (parsed : parse table cs = .ok e) (some : e ≠ .all []) :
    ∃ tokens, Lexes cs tokens ∧ Fills table [] e tokens := by
  obtain ⟨tokens, final, lexes, steps, finished⟩ := parse_iff.mp parsed
  exact ⟨tokens, lexes, fills_of_run steps finished some⟩

private theorem reads_grouped (parsed : parse table cs = .ok e) (some : e ≠ .all []) :
    Reads table none (grouped cs) e := by
  obtain ⟨tokens, lexes, fills⟩ := exists_fills parsed some
  exact ⟨_, lexes.spells_grouped, fills.yields⟩

private theorem parse_grouped (parsed : parse table cs = .ok e) (some : e ≠ .all []) :
    parse table (grouped cs) = .ok e := (reads_grouped parsed some).part.parse

private theorem parse_grouped_binary {op : BinaryOp} {p : Nat}
    (known : table.precedence op = some p)
    (first : parse table cs = .ok e) (some : e ≠ .all []) (second : parse table more = .ok f)
    (other : f ≠ .all []) :
    parse table (grouped cs ++ ' ' :: (op.spelling ++ ' ' :: grouped more)) = .ok (.binary op e f) := by
  have whole := (reads_grouped first some).binary known (by simp) (reads_grouped second other) (by simp)
  exact whole.part.parse

private theorem parse_grouped_beside (first : parse table cs = .ok e) (some : e ≠ .all [])
    (second : parse table more = .ok f) (other : f ≠ .all []) :
    parse table (grouped cs ++ ' ' :: grouped more) = .ok (.all [e, f]) := by
  obtain ⟨tokens, lexes, fills⟩ := exists_fills first some
  obtain ⟨others, lexed, filled⟩ := exists_fills second other
  have both : Fills table [] (.all [e, f]) _ := fills.beside (filled.last [e])
  exact ReadsPart.parse ⟨_, lexes.spells_grouped.spaced lexed.spells_grouped, both⟩

end Reading

section Expanding
variable {table : OperatorTable} {bindings : Variables} (bound : bindings.BindsAtMostMe)
  {cs more : List Char} {e f : Expr} (first : parse table (expand bindings cs) = .ok e)
  (some : e ≠ .all [])
include bound first some

private theorem parse_expand_single : parse table (expand bindings (grouped cs)) = .ok e := by
  rw [expand_single bound]
  exact parse_grouped first some

variable (second : parse table (expand bindings more) = .ok f) (other : f ≠ .all [])
include second other

private theorem parse_expand_binary {op : BinaryOp} {p : Nat}
    (known : table.precedence op = .some p)
    (connects : ∀ c ∈ ' ' :: (op.spelling ++ [' ']), c ∈ connectors) :
    parse table (expand bindings (grouped cs ++ ' ' :: (op.spelling ++ ' ' :: grouped more))) =
      .ok (.binary op e f) := by
  obtain ⟨tokens, lexes, -⟩ := exists_fills first some
  have expanded := @expand_grouped bindings bound cs more _ tokens lexes connects
  simp only [List.cons_append, List.append_assoc, List.nil_append] at expanded
  rw [expanded]
  exact parse_grouped_binary known first some second other

private theorem parse_expand_beside :
    parse table (expand bindings (grouped cs ++ ' ' :: grouped more)) = .ok (.all [e, f]) := by
  obtain ⟨tokens, lexes, -⟩ := exists_fills first some
  have expanded := @expand_grouped bindings bound cs more [' '] tokens lexes (by simp [connectors])
  simp only [List.cons_append, List.nil_append] at expanded
  rw [expanded]
  exact parse_grouped_beside first some second other

end Expanding

section Accepting
variable {context : Context} {e f : Expr} {left right : Value} (lefts : eval context e = .ok left)
  (rights : eval context f = .ok right)
include lefts rights

private theorem eval_or : eval context (.binary .or e f) =
    .ok (.boolean (accepts context e || accepts context f)) := by
  rw [eval_binary, lefts, accepts_of_eval lefts, accepts_of_eval rights]
  simp [BinaryOp.compares, rights, binaryValue, binaryValueBy, bind, Except.bind]

private theorem eval_and : eval context (.binary .and e f) =
    .ok (.boolean (accepts context e && accepts context f)) := by
  rw [eval_binary, lefts, accepts_of_eval lefts, accepts_of_eval rights]
  simp [BinaryOp.compares, rights, binaryValue, binaryValueBy, bind, Except.bind]

private theorem eval_beside : eval context (.all [e, f]) =
    .ok (.boolean (accepts context e && accepts context f)) := by
  rw [accepts_of_eval lefts, accepts_of_eval rights]
  simp [eval, evalAll, lefts, rights, bind, Except.bind, pure, Except.pure]

end Accepting

/-- Queries compose as a Boolean algebra: over records for which both have values, `(q) OR (r)` selects
in their order the records that q or r selects, `(q) AND (r)` and `(q) (r)` those that both select, and
`(q)` selects what q does. -/
theorem queries_compose (bindings : Variables) (bound : bindings.BindsAtMostMe) (q r : String)
    (c d : Compiled) (first : compile .standard bindings q = .ok c) (written : c.expr ≠ .all [])
    (second : compile .standard bindings r = .ok d) (other : d.expr ≠ .all []) (now : Time.Instant)
    (records : List PullRequest)
    (total : ∀ pr ∈ records, (∃ value, eval ⟨pr, now⟩ c.expr = .ok value) ∧
      ∃ value, eval ⟨pr, now⟩ d.expr = .ok value) :
    let selected (query : String) := Filter.run .standard bindings now records (.query query)
    let byFirst (pr : PullRequest) := accepts ⟨pr, now⟩ c.expr
    let bySecond (pr : PullRequest) := accepts ⟨pr, now⟩ d.expr
    selected q = .ok (records.filter byFirst) ∧ selected r = .ok (records.filter bySecond) ∧
      selected ("(" ++ q ++ ") OR (" ++ r ++ ")") =
        .ok (records.filter fun pr => byFirst pr || bySecond pr) ∧
      selected ("(" ++ q ++ ") AND (" ++ r ++ ")") =
        .ok (records.filter fun pr => byFirst pr && bySecond pr) ∧
      selected ("(" ++ q ++ ") (" ++ r ++ ")") =
        .ok (records.filter fun pr => byFirst pr && bySecond pr) ∧
      selected ("(" ++ q ++ ")") = selected q := by
  obtain ⟨e, parsed, rfl⟩ := compile_ok.mp first
  obtain ⟨f, read, rfl⟩ := compile_ok.mp second
  have either : parse .standard (expand bindings ("(" ++ q ++ ") OR (" ++ r ++ ")").toList) =
      .ok (.binary .or e f) := by
    have known : OperatorTable.standard.precedence .or = some 1 := rfl
    have whole := parse_expand_binary bound parsed written read other known
      (by simp [BinaryOp.spelling, connectors])
    simpa [grouped, BinaryOp.spelling] using whole
  have both : parse .standard (expand bindings ("(" ++ q ++ ") AND (" ++ r ++ ")").toList) =
      .ok (.binary .and e f) := by
    have known : OperatorTable.standard.precedence .and = some 2 := rfl
    have whole := parse_expand_binary bound parsed written read other known
      (by simp [BinaryOp.spelling, connectors])
    simpa [grouped, BinaryOp.spelling] using whole
  have beside : parse .standard (expand bindings ("(" ++ q ++ ") (" ++ r ++ ")").toList) =
      .ok (.all [e, f]) := by
    simpa [grouped] using parse_expand_beside bound parsed written read other
  have alone : parse .standard (expand bindings ("(" ++ q ++ ")").toList) = .ok e := by
    simpa [grouped] using parse_expand_single bound parsed written
  intro selected byFirst bySecond
  have one : selected q = .ok (records.filter byFirst) :=
    run_query parsed fun pr member => (total pr member).1
  have two : selected r = .ok (records.filter bySecond) :=
    run_query read fun pr member => (total pr member).2
  have enclosed : selected ("(" ++ q ++ ")") = .ok (records.filter byFirst) :=
    run_query alone fun pr member => (total pr member).1
  refine ⟨one, two, run_truth either ?_, run_truth both ?_, run_truth beside ?_, ?_⟩
  · intro pr member
    obtain ⟨⟨left, lefts⟩, right, rights⟩ := total pr member
    exact eval_or lefts rights
  · intro pr member
    obtain ⟨⟨left, lefts⟩, right, rights⟩ := total pr member
    exact eval_and lefts rights
  · intro pr member
    obtain ⟨⟨left, lefts⟩, right, rights⟩ := total pr member
    exact eval_beside lefts rights
  · rw [one, enclosed]

def mixedRecords : List PullRequest :=
  [{ PullRequest.sample with author := ⟨"bob", none, none⟩ }, { PullRequest.sample with labels := [] },
    .sample]

theorem queries_compose_labels :
    ∃ c d, (compile .standard (.ofUser "alice") "author = @me" = .ok c ∧ c.expr ≠ .all []) ∧
      (compile .standard (.ofUser "alice") "label IN (docs, 'x)') 7d" = .ok d ∧ d.expr ≠ .all []) ∧
      (∀ pr ∈ mixedRecords, (∃ value, eval ⟨pr, .epoch⟩ c.expr = .ok value) ∧
        ∃ value, eval ⟨pr, .epoch⟩ d.expr = .ok value) ∧
      Filter.run .standard (.ofUser "alice") .epoch mixedRecords
        (.query "(author = @me) OR (label IN (docs, 'x)') 7d)") = .ok mixedRecords ∧
      Filter.run .standard (.ofUser "alice") .epoch mixedRecords
        (.query "(author = @me) (label IN (docs, 'x)') 7d)") = .ok [.sample] := by
  have bound : Variables.BindsAtMostMe (.ofUser "alice") := .inr ⟨"alice", rfl⟩
  have first : parse .standard (expand (.ofUser "alice") "author = @me".toList) =
      .ok (.binary .equal (.name "author") (.text "alice")) := by
    have read : tokenize (expand (.ofUser "alice") "author = @me".toList) =
        .ok [.name "author", .equal, .text "alice"] := by decide +kernel
    exact parse_iff.mpr ⟨_, _, tokenize_iff.mp read, rfl, rfl⟩
  have second : parse .standard (expand (.ofUser "alice") "label IN (docs, 'x)') 7d".toList) =
      .ok (.all [.binary .isIn (.name "label") (.list [.name "docs", .text "x)"]),
        .integer 604800]) := by
    have read : tokenize (expand (.ofUser "alice") "label IN (docs, 'x)') 7d".toList) =
        .ok [.name "label", .isIn, .openParen, .name "docs", .comma, .text "x)", .closeParen,
          .integer 604800] := by decide +kernel
    exact parse_iff.mpr ⟨_, _, tokenize_iff.mp read, rfl, rfl⟩
  have compiled := compile_ok.mpr ⟨_, first, rfl⟩
  have others := compile_ok.mpr ⟨_, second, rfl⟩
  have total : ∀ pr ∈ mixedRecords,
      (∃ value, eval ⟨pr, .epoch⟩ (.binary .equal (.name "author") (.text "alice")) = .ok value) ∧
        ∃ value, eval ⟨pr, .epoch⟩ (.all [.binary .isIn (.name "label")
          (.list [.name "docs", .text "x)"]), .integer 604800]) = .ok value :=
    fun pr _ => ⟨⟨_, rfl⟩, ⟨_, rfl⟩⟩
  obtain ⟨-, -, either, -, beside, -⟩ :=
    queries_compose _ bound _ _ _ _ compiled (by simp) others (by simp) .epoch mixedRecords total
  refine ⟨_, _, ⟨compiled, by simp⟩, ⟨others, by simp⟩, total, either.trans ?_, beside.trans ?_⟩
  · decide +kernel
  · decide +kernel

end PullQuery.Query
