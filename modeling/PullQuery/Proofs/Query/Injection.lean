import PullQuery.Proofs.Query.Placeholders
import PullQuery.Proofs.Query.Relabelling
import PullQuery.Proofs.Query.Substitution
import PullQuery.Query.Variables
import Mathlib.Data.Finset.Preimage
import Mathlib.Data.Fintype.EquivFin

/-! The value of a variable cannot change how a query is read. For any two values the query is read as
the same tokens and parsed to the same tree, up to the two texts themselves, or it is rejected with
both of them. -/
namespace PullQuery.Query
open PullQuery.Text QuoteState Grammar

inductive Token.AlikeBut (v w : String) : Token → Token → Prop
  | same (token : Token) : AlikeBut v w token token
  | texts : AlikeBut v w (.text v) (.text w)

/-- Equal trees, except that leaves with the one text may have the other instead. -/
inductive Expr.AlikeBut (v w : String) : Expr → Expr → Prop
  | same (e : Expr) : AlikeBut v w e e
  | texts : AlikeBut v w (.text v) (.text w)
  | unary {e f : Expr} (op : UnaryOp) (operand : AlikeBut v w e f) :
      AlikeBut v w (.unary op e) (.unary op f)
  | binary {left right first second : Expr} (op : BinaryOp) (lefts : AlikeBut v w left first)
      (rights : AlikeBut v w right second) :
      AlikeBut v w (.binary op left right) (.binary op first second)
  | list {items others : List Expr} (each : List.Forall₂ (AlikeBut v w) items others) :
      AlikeBut v w (.list items) (.list others)
  | call {arguments others : List Expr} (function : String)
      (each : List.Forall₂ (AlikeBut v w) arguments others) :
      AlikeBut v w (.call function arguments) (.call function others)
  | all {parts others : List Expr} (each : List.Forall₂ (AlikeBut v w) parts others) :
      AlikeBut v w (.all parts) (.all others)

mutual

private theorem Expr.alikeBut_mapText {v w : String} {f g : String → String}
    (swap : ∀ s, f s = g s ∨ f s = v ∧ g s = w) (e : Expr) :
    AlikeBut v w (e.mapText f) (e.mapText g) := by
  match e with
  | .text s =>
    rcases swap s with same | ⟨first, second⟩
    · rw [mapText, mapText, same]
      exact .same _
    · rw [mapText, mapText, first, second]
      exact .texts
  | .unary op e => exact .unary op (alikeBut_mapText swap e)
  | .binary op left right =>
    exact .binary op (alikeBut_mapText swap left) (alikeBut_mapText swap right)
  | .list items => exact .list (alikeBut_mapTexts swap items)
  | .call function arguments => exact .call function (alikeBut_mapTexts swap arguments)
  | .all parts => exact .all (alikeBut_mapTexts swap parts)
  | .integer _ | .float _ | .boolean _ | .null | .name _ => exact .same _

theorem Expr.alikeBut_mapTexts {v w : String} {f g : String → String}
    (swap : ∀ s, f s = g s ∨ f s = v ∧ g s = w) (items : List Expr) :
    List.Forall₂ (AlikeBut v w) (mapTexts f items) (mapTexts g items) := by
  match items with
  | [] => exact .nil
  | e :: rest => exact .cons (alikeBut_mapText swap e) (alikeBut_mapTexts swap rest)

end

/-- The text of a query as it is read, as a trace that does not depend on the value of the variable. -/
theorem exists_trace_expand {name : String} (named : name ≠ "")
    (free : ∀ c ∈ name.toList, isQuote c = false) (cs : List Char) :
    ∃ trace : Trace Unit, Trace.Apart outside trace ∧
      ∀ value, expand [(name, value)] cs = trace.text fun _ => value := by
  have some : name.toList ≠ [] := by simpa using named
  obtain ⟨placed, -, picked, substituted⟩ := exists_trace some free [] cs
  obtain ⟨trace, apart, rewritten⟩ := exists_trace_durations outside true placed picked.apart
  refine ⟨trace, apart, fun value => ?_⟩
  have replaced : substituteOne name value cs = placed.text fun _ => value := substituted value
  rw [expand, substitute_single named, replaced]
  exact rewritten _ [] rfl rfl

private theorem exists_unused (tokens : List Token) : ∃ unused : String, .text unused ∉ tokens := by
  have injective : Set.InjOn Token.text (Set.preimage Token.text tokens.toFinset) :=
    fun _ _ _ _ same => Token.text.inj same
  obtain ⟨unused, absent⟩ :=
    Infinite.exists_notMem_finset (tokens.toFinset.preimage Token.text injective)
  exact ⟨unused, by simpa using absent⟩

def swapText (unused value s : String) : String := if s = unused then value else s

theorem exists_template (shape : List (Token ⊕ Unit)) :
    ∃ (unused : String) (template : List Token), ∀ value,
      shape.map (tokenOf fun _ => value) = template.map (Token.mapText (swapText unused value)) := by
  obtain ⟨unused, absent⟩ := exists_unused (shape.map (tokenOf fun _ => ""))
  refine ⟨unused, shape.map (tokenOf fun _ => unused), fun value => ?_⟩
  rw [List.map_map]
  refine List.map_congr_left fun token member => ?_
  match token with
  | .inr value => simp [tokenOf, Token.mapText, swapText]
  | .inl token =>
    have other : token ≠ .text unused := by
      rintro rfl
      exact absent (List.mem_map_of_mem member)
    cases token with
    | text s =>
      have differs : s ≠ unused := fun same => other (congrArg _ same)
      simp [tokenOf, Token.mapText, swapText, differs]
    | _ => rfl

section Runs
variable {trace : Trace Unit} (apart : Trace.Apart outside trace) (v w : String)

include apart in
private theorem tokens_alike {tokens : List Token} (lexes : Lexes (trace.text fun _ => v) tokens) :
    ∃ others, Lexes (trace.text fun _ => w) others ∧
      List.Forall₂ (Token.AlikeBut v w) tokens others := by
  obtain ⟨shape, rfl, all⟩ := lexes.placed apart
  refine ⟨_, all fun _ => w, ?_⟩
  rw [List.forall₂_map_left_iff, List.forall₂_map_right_iff, List.forall₂_same]
  rintro (token | value) -
  · exact .same token
  · exact .texts

include apart in
private theorem trees_alike {table : OperatorTable} {e : Expr}
    (parsed : parse table (trace.text fun _ => v) = .ok e) :
    ∃ other, parse table (trace.text fun _ => w) = .ok other ∧ Expr.AlikeBut v w e other := by
  obtain ⟨tokens, final, lexes, steps, finished⟩ := parse_iff.mp parsed
  obtain ⟨shape, rfl, all⟩ := lexes.placed apart
  obtain ⟨unused, template, read⟩ := exists_template shape
  -- Both runs of the parser are one run on the template with the text swapped in.
  have relabelled (value : String) : run table initial (shape.map (tokenOf fun _ => value)) =
      (run table initial template).map (State.mapText (swapText unused value)) := by
    rw [read, ← run_mapText]
    rfl
  rw [relabelled] at steps
  obtain ⟨base, based, rfl⟩ := Option.map_eq_some_iff.mp steps
  rw [State.finish_mapText] at finished
  cases root : base.finish with
  | error fault => simp [root, Except.map] at finished
  | ok whole =>
    obtain rfl : whole.mapText (swapText unused v) = e := by simpa [root, Except.map] using finished
    have again : run table initial (shape.map (tokenOf fun _ => w)) =
        some (base.mapText (swapText unused w)) := by rw [relabelled, based, Option.map_some]
    have ends : (base.mapText (swapText unused w)).finish =
        .ok (whole.mapText (swapText unused w)) := by
      rw [State.finish_mapText, root]
      rfl
    refine ⟨_, parse_iff.mpr ⟨_, _, all fun _ => w, again, ends⟩, ?_⟩
    refine Expr.alikeBut_mapText (fun s => ?_) whole
    by_cases swapped : s = unused
    · exact .inr ⟨if_pos swapped, if_pos swapped⟩
    · exact .inl (by simp [swapText, swapped])

end Runs
theorem compile_ok {table : OperatorTable} {bindings : Variables} {query : String} {c : Compiled} :
    compile table bindings query = .ok c ↔
      ∃ e, parse table (expand bindings query.toList) = .ok e ∧
        c = ⟨query, String.ofList (expand bindings query.toList), e⟩ := by
  cases parsed : parse table (expand bindings query.toList) with
  | error error => simp [compile, parsed, bind, Except.bind]
  | ok e => simp [compile, parsed, bind, Except.bind, pure, Except.pure, eq_comm]

def BothOrNeither {ε α : Type} (related : α → α → Prop) (first second : Except ε α) : Prop :=
  (∃ fault other, first = .error fault ∧ second = .error other) ∨
    ∃ a b, first = .ok a ∧ second = .ok b ∧ related a b

private theorem bothOrNeither_of_imp {ε α : Type} {related : α → α → Prop}
    {first second : Except ε α} (forth : ∀ a, first = .ok a → ∃ b, second = .ok b ∧ related a b)
    (back : ∀ b, second = .ok b → ∃ a, first = .ok a) : BothOrNeither related first second := by
  cases first with
  | ok a =>
    obtain ⟨b, rfl, alike⟩ := forth a rfl
    exact .inr ⟨a, b, rfl, rfl, alike⟩
  | error fault =>
    cases second with
    | error other => exact .inl ⟨fault, other, rfl, rfl⟩
    | ok b =>
      obtain ⟨a, absurd⟩ := back b rfl
      simp at absurd

/-- No value of a variable injects syntax: with any two values a query is read as the same tokens
and compiled to the same tree but for the two texts, or it fails with both. -/
theorem value_injects_nothing (table : OperatorTable) (query name : String) (named : name ≠ "")
    (free : ∀ c ∈ name.toList, isQuote c = false) (v w : String) :
    BothOrNeither (List.Forall₂ (Token.AlikeBut v w))
        (tokenize (expand [(name, v)] query.toList)) (tokenize (expand [(name, w)] query.toList)) ∧
      BothOrNeither (fun c d => Expr.AlikeBut v w c.expr d.expr)
        (compile table [(name, v)] query) (compile table [(name, w)] query) := by
  obtain ⟨trace, apart, said⟩ := exists_trace_expand named free query.toList
  constructor
  · rw [said v, said w]
    refine bothOrNeither_of_imp ?_ ?_
    · intro tokens read
      obtain ⟨others, lexes, alike⟩ := tokens_alike apart v w (tokenize_iff.mp read)
      exact ⟨others, tokenize_iff.mpr lexes, alike⟩
    · intro tokens read
      obtain ⟨others, lexes, -⟩ := tokens_alike apart w v (tokenize_iff.mp read)
      exact ⟨others, tokenize_iff.mpr lexes⟩
  · refine bothOrNeither_of_imp ?_ ?_
    · intro c compiled
      obtain ⟨e, parsed, rfl⟩ := compile_ok.mp compiled
      rw [said v] at parsed
      obtain ⟨other, parsed, alike⟩ := trees_alike apart v w parsed
      rw [← said w] at parsed
      exact ⟨_, compile_ok.mpr ⟨other, parsed, rfl⟩, alike⟩
    · intro c compiled
      obtain ⟨e, parsed, rfl⟩ := compile_ok.mp compiled
      rw [said w] at parsed
      obtain ⟨other, parsed, -⟩ := trees_alike apart w v parsed
      rw [← said v] at parsed
      exact ⟨_, compile_ok.mpr ⟨other, parsed, rfl⟩⟩

theorem value_injects_nothing_closing_quote :
    ("@me" ≠ "" ∧ ∀ c ∈ "@me".toList, isQuote c = false) ∧
      BothOrNeither (List.Forall₂ (Token.AlikeBut "\") OR (1d" "\\"))
        (tokenize (expand [("@me", "\") OR (1d")] "author = @me AND age < 2d".toList))
        (tokenize (expand [("@me", "\\")] "author = @me AND age < 2d".toList)) ∧
      BothOrNeither (fun c d => Expr.AlikeBut "\") OR (1d" "\\" c.expr d.expr)
        (compile .standard [("@me", "\") OR (1d")] "author = @me AND age < 2d")
        (compile .standard [("@me", "\\")] "author = @me AND age < 2d") := by
  have named : "@me" ≠ "" := by decide
  have free : ∀ c ∈ "@me".toList, isQuote c = false := by simp [isQuote]
  exact ⟨⟨named, free⟩,
    value_injects_nothing .standard "author = @me AND age < 2d" "@me" named free _ _⟩

end PullQuery.Query
