import PullQuery.Query.Variables
import PullQuery.Proofs.Text.Segments

/-! What replacing one variable does to a text. Where the name is picked and which picks are replaced
does not depend on the value, and a pick is replaced exactly where it begins outside of the literals
and leaves none open. -/
namespace PullQuery.Query
open PullQuery.Text QuoteState

inductive IsOccurrence (name : List Char) : List Char → Prop
  | bare : IsOccurrence name name
  | quoted {quote : Char} (quoted : isQuote quote = true) :
      IsOccurrence name (quote :: (name ++ [quote]))

theorem occurrence?_some {name cs : List Char} {width : Nat}
    (found : occurrence? name cs = some width) :
    ∃ source rest, cs = source ++ rest ∧ source.length = width ∧ IsOccurrence name source := by
  unfold occurrence? at found
  split at found
  · rename_i front
    obtain rfl := Option.some.inj found
    simp only [Bool.or_eq_true, List.isPrefixOf_iff_prefix] at front
    obtain ⟨rest, split⟩ | ⟨rest, split⟩ := front
    · exact ⟨_, rest, split.symm, by simp, .quoted rfl⟩
    · exact ⟨_, rest, split.symm, by simp, .quoted rfl⟩
  · split at found
    · rename_i front
      obtain rfl := Option.some.inj found
      simp only [Bool.and_eq_true, List.isPrefixOf_iff_prefix] at front
      obtain ⟨rest, split⟩ := front.1
      exact ⟨name, rest, split.symm, rfl, .bare⟩
    · simp at found

section Name
variable {name : List Char} (named : name ≠ []) (free : ∀ c ∈ name, isQuote c = false)

include named in
theorem IsOccurrence.ne_nil {source : List Char} (occurrence : IsOccurrence name source) :
    source ≠ [] := by
  cases occurrence with
  | bare => exact named
  | quoted => simp

include named free in
theorem isReplaceable_iff {before source rest : List Char}
    (occurrence : IsOccurrence name source) :
    isReplaceable (literalSpans (before ++ (source ++ rest)))
        ⟨before.length, before.length + source.length⟩ = true ↔
      outside.after before = outside ∧ (outside.after source = outside ∨ rest = []) := by
  unfold isReplaceable
  by_cases outer : outside.after before = outside
  · simp only [outer, true_and]
    cases occurrence with
    | bare =>
      obtain ⟨c, name, rfl⟩ := List.exists_cons_of_ne_nil named
      have plain := find?_literalSpans_plain outer (free c (.head _)) (name ++ rest)
      rw [List.cons_append, plain]
      simp [after_quoteFree free]
    | @quoted quote quoted =>
      have within := within_quoted quoted free
      have literal := find?_literalSpans_quote outer quoted (name ++ [quote] ++ rest)
      rw [literalRest_append within] at literal
      rw [List.cons_append, literal]
      have closed := @literalRest_eq_zero ((inside quote).after (name ++ [quote])) rest
      rw [after_cons, next_quote quoted, ← closed]
      simp
      omega
  · obtain ⟨c, source, rfl⟩ := List.exists_cons_of_ne_nil (occurrence.ne_nil named)
    obtain ⟨span, found, earlier⟩ := find?_literalSpans_inner outer c (source ++ rest)
    rw [List.cons_append, found]
    have other : span ≠ ⟨before.length, before.length + (c :: source).length⟩ := by
      rintro rfl
      simp at earlier
    simpa [outer] using other

include named free in
theorem variableRule_found {before source rest : List Char} (occurrence : IsOccurrence name source)
    (found : occurrence? name (source ++ rest) = some source.length) (value : List Char) :
    (outside.after before.reverse = outside ∧ (outside.after source = outside ∨ rest = []) →
        variableRule name value before (source ++ rest) =
          some ⟨source.length, asLiteral value⟩) ∧
      (¬ (outside.after before.reverse = outside ∧ (outside.after source = outside ∨ rest = [])) →
        variableRule name value before (source ++ rest) = some ⟨source.length, source⟩) := by
  have replaceable := @isReplaceable_iff name named free before.reverse source rest occurrence
  rw [List.length_reverse] at replaceable
  constructor
  · intro picked
    simp [variableRule, found, replaceable.mpr picked]
  · intro left
    simp [variableRule, found, mt replaceable.mp left]

include named free in
/-- What the rule of a variable does at a place, whatever the value of the variable is. -/
theorem variableRule_cases (before cs : List Char) :
    (∀ value, variableRule name value before cs = none) ∨
      ∃ source rest, cs = source ++ rest ∧ IsOccurrence name source ∧
        ((outside.after before.reverse = outside ∧ (outside.after source = outside ∨ rest = []) ∧
            ∀ value, variableRule name value before cs = some ⟨source.length, asLiteral value⟩) ∨
          ∀ value, variableRule name value before cs = some ⟨source.length, source⟩) := by
  cases found : occurrence? name cs with
  | none => exact .inl fun value => by simp [variableRule, found]
  | some width =>
    obtain ⟨source, rest, rfl, rfl, occurrence⟩ := occurrence?_some found
    refine .inr ⟨source, rest, rfl, occurrence, ?_⟩
    have does := @variableRule_found name named free before source rest occurrence found
    by_cases picked : outside.after before.reverse = outside ∧
      (outside.after source = outside ∨ rest = [])
    · exact .inl ⟨picked.1, picked.2, fun value => (does value).1 picked⟩
    · exact .inr fun value => (does value).2 picked

end Name

/-- The literals of a trace stand where the name is written, outside of all literals and without
leaving one open, except at the end. -/
def Picked {α : Type} (name : List Char) : QuoteState → Trace α → Prop
  | _, [] => True
  | s, .kept c :: rest => Picked name (s.next c) rest
  | s, .placed source _ :: rest =>
    s = .outside ∧ IsOccurrence name source ∧
      (outside.after source = outside ∨ Trace.source rest = []) ∧ Picked name .outside rest

theorem picked_kept_append {α : Type} {name : List Char} {s : QuoteState} {cs : List Char}
    {trace : Trace α} :
    Picked name s (Trace.kept cs ++ trace) ↔ Picked name (s.after cs) trace := by
  induction cs generalizing s with
  | nil => rfl
  | cons c cs ih => exact ih

theorem Picked.apart {α : Type} {name : List Char} {s : QuoteState} {trace : Trace α}
    (picked : Picked name s trace) : Trace.Apart s trace := by
  induction trace generalizing s with
  | nil => trivial
  | cons segment trace ih =>
    cases segment with
    | kept c => exact ih picked
    | placed source value => exact ⟨picked.1, ih picked.2.2.2⟩

theorem Picked.eq_nil {α : Type} {name : List Char} (named : name ≠ []) {s : QuoteState}
    {trace : Trace α} (picked : Picked name s trace) (empty : trace.source = []) : trace = [] := by
  match trace with
  | [] => rfl
  | .kept c :: trace => simp [Segment.source] at empty
  | .placed source value :: trace =>
    obtain ⟨nothing, -⟩ : source = [] ∧ _ := by simpa [Segment.source] using empty
    exact absurd nothing (picked.2.1.ne_nil named)

/-- Replacing a variable places the literal of its value, at places that do not depend on it. -/
theorem exists_trace {name : List Char} (named : name ≠ []) (free : ∀ c ∈ name, isQuote c = false)
    (before cs : List Char) :
    ∃ trace : Trace Unit, trace.source = cs ∧ Picked name (outside.after before.reverse) trace ∧
      ∀ value : String, replaceFrom (variableRule name value.toList) before 0 cs =
        trace.text fun _ => value := by
  induction size : cs.length using Nat.strongRecOn generalizing before cs with
  | ind size ih =>
    subst size
    cases cs with
    | nil => exact ⟨[], rfl, trivial, fun _ => rfl⟩
    | cons c cs =>
      obtain passed | ⟨source, rest, split, occurrence, choice⟩ :=
        variableRule_cases named free before (c :: cs)
      · obtain ⟨trace, rfl, picked, said⟩ := ih cs.length (by simp) (c :: before) cs rfl
        refine ⟨.kept c :: trace, rfl, ?_, fun value => ?_⟩
        · simpa [Picked, after_append] using picked
        · rw [replaceFrom_keep (passed _), said]
          rfl
      · have some := occurrence.ne_nil named
        obtain ⟨trace, rfl, picked, said⟩ :=
          ih rest.length (shorter_behind some split) (source.reverse ++ before) rest rfl
        rw [List.reverse_append, List.reverse_reverse, after_append] at picked
        rw [split] at choice ⊢
        obtain ⟨outer, closed, placed⟩ | left := choice
        · refine ⟨.placed source () :: trace, rfl, ⟨outer, occurrence, closed, ?_⟩,
            fun value => ?_⟩
          · rcases closed with closed | ends
            · rwa [outer, closed] at picked
            · obtain rfl := picked.eq_nil named ends
              trivial
          · rw [replaceFrom_piece some (placed _), said]
            rfl
        · refine ⟨Trace.kept source ++ trace, ?_, picked_kept_append.mpr picked, fun value => ?_⟩
          · rw [Trace.source_append, Trace.source_kept]
          · rw [replaceFrom_piece some (left _), said, Trace.text_append, Trace.text_kept]

theorem substitute_single {name : String} (named : name ≠ "") (value : String) (cs : List Char) :
    Variables.substitute [(name, value)] cs = substituteOne name value cs := by
  have kept : [(name, value)].filter (fun binding => binding.1 ≠ "") = [(name, value)] := by
    simp [named]
  rw [Variables.substitute, Variables.byLength, kept]
  rfl

end PullQuery.Query
