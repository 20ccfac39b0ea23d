import PullQuery.Proofs.Query.Occurrences
import PullQuery.Proofs.Query.SignedSeconds
import PullQuery.Proofs.Query.Written

/-! Texts in parentheses. Variables and durations are looked for in them as if they stood alone, and
the tokens are those of each text, as long as no literal is left open. -/
namespace PullQuery.Query
open PullQuery.Text QuoteState Lexeme

def grouped (cs : List Char) : List Char := '(' :: (cs ++ [')'])

def connectors : List Char := ['(', ')', ' ', 'A', 'N', 'D', 'O', 'R']

/-- A rule that goes through what stands in parentheses as if it stood alone, behind a text that
leaves no literal open. -/
structure ReadsApart (rule : PieceRule) : Prop where
  fits : ∀ before cs piece, rule before cs = some piece → piece.width ≤ cs.length
  inner : ∀ before front back rest : List Char, outside.after before.reverse = outside → back ≠ [] →
    rule (front.reverse ++ '(' :: before) (back ++ ')' :: rest) = rule front.reverse back
  plain : ∀ before rest, ∀ c ∈ connectors, rule before (c :: rest) = none

namespace ReadsApart
variable {rule : PieceRule} (apart : ReadsApart rule)
include apart

private theorem passes {run : List Char} (connects : ∀ c ∈ run, c ∈ connectors)
    (before rest : List Char) :
    replaceFrom rule before 0 (run ++ rest) =
      run ++ replaceFrom rule (run.reverse ++ before) 0 rest := by
  induction run generalizing before with
  | nil => rfl
  | cons c run ih =>
    have passed := apart.plain before (run ++ rest) c (connects c (.head _))
    rw [List.cons_append, replaceFrom_keep passed, ih fun d member => connects d (.tail _ member)]
    simp

private theorem replaceFrom_grouped {before : List Char}
    (closed : outside.after before.reverse = outside) (cs rest : List Char) :
    replaceFrom rule before 0 (grouped cs ++ rest) =
      grouped (replacePieces rule cs) ++ replaceFrom rule ((grouped cs).reverse ++ before) 0 rest := by
  have opens := apart.plain before (cs ++ ')' :: rest) '(' (by simp [connectors])
  have closes := apart.plain (cs.reverse ++ '(' :: before) rest ')' (by simp [connectors])
  have inner := @replaceFrom_append rule cs (')' :: rest) apart.fits ('(' :: before) []
    (fun front back _ some => by simpa using apart.inner before front back rest closed some)
    0 (Nat.zero_le _)
  rw [replaceFrom_keep closes] at inner
  simp [grouped, replaceFrom_keep opens, inner, replacePieces]

private theorem replacePieces_single (cs : List Char) :
    replacePieces rule (grouped cs) = grouped (replacePieces rule cs) := by
  have whole := @replaceFrom_grouped rule apart [] rfl cs []
  simpa [replacePieces, replaceFrom] using whole

theorem replacePieces_grouped {cs more : List Char} (closed : outside.after cs = outside)
    {between : List Char} (connects : ∀ c ∈ between, c ∈ connectors) :
    replacePieces rule (grouped cs ++ (between ++ grouped more)) =
      grouped (replacePieces rule cs) ++ (between ++ grouped (replacePieces rule more)) := by
  have free : ∀ c ∈ between, isQuote c = false := by
    intro c member
    have plain : connectors.all (fun c => !isQuote c) = true := by decide
    simpa using List.all_eq_true.mp plain c (connects c member)
  have first : outside.after (grouped cs) = outside := by
    rw [grouped, after_cons, next_plain (by decide), after_append, closed]
    decide
  have second : outside.after (between.reverse ++ ((grouped cs).reverse ++ [])).reverse = outside := by
    simp [after_append, first, after_quoteFree free]
  rw [replacePieces, apart.replaceFrom_grouped rfl, apart.passes connects,
    ← List.append_nil (grouped more), apart.replaceFrom_grouped second]
  simp [replaceFrom]

end ReadsApart

private theorem readsApart_durationRule : ReadsApart durationRule where
  fits := durationRule_fits
  inner := by
    intro before front back rest closed some
    have ends : EndsDuration (')' :: rest) := by
      intro c first
      obtain rfl : ')' = c := by simpa using first
      decide
    have state : outside.after (front.reverse ++ '(' :: before).reverse = outside.after front := by
      simp [after_append, closed, next_plain (show isQuote '(' = false by decide)]
    have follows : mayFollow (front.reverse ++ '(' :: before) = mayFollow front.reverse := by
      cases front with
      | nil =>
        have free : mayFollow ['('] = true := by decide
        exact free
      | cons c front => exact mayFollow_append (by simp) _
    rw [durationRule_append ends (by simp [isQuote]) _ some]
    simp only [durationRule, state, follows, List.reverse_reverse]
  plain := by
    intro before rest c member
    have shape : connectors.all (fun c => c != '-' && !isDecimal c) = true := by decide
    obtain ⟨minus, digit⟩ : c ≠ '-' ∧ isDecimal c = false := by
      simpa using List.all_eq_true.mp shape c member
    have none : Duration.scan? (c :: rest) = none :=
      Duration.scan?_plain (by simpa using minus) (by simpa [StopsRun] using digit)
    simp [durationRule, none]

section Variable
variable {name : List Char} (isName : IsName name) (value : List Char)
include isName

theorem IsOccurrence.closed {source : List Char} (occurrence : IsOccurrence name source) :
    outside.after source = outside := by
  cases occurrence with
  | bare => exact after_quoteFree isName.quoteFree
  | quoted quoted => rw [after_cons, next_quote quoted, isName.after_quoted quoted]

theorem variableRule_eq (before cs : List Char) :
    variableRule name value before cs = (occurrence? name cs).map fun width =>
      if outside.after before.reverse = outside then ⟨width, asLiteral value⟩
      else ⟨width, cs.take width⟩ := by
  cases found : occurrence? name cs with
  | none => simp [variableRule, found]
  | some width =>
    obtain ⟨source, rest, rfl, rfl, occurrence⟩ := occurrence?_some found
    have does := @variableRule_found name isName.ne_nil isName.quoteFree before source rest
      occurrence found value
    rw [Option.map_some]
    split
    · rename_i outer
      exact does.1 ⟨outer, .inl (occurrence.closed isName)⟩
    · rename_i inner
      rw [does.2 (fun picked => inner picked.1), List.take_left]

/-- Replacing the variable opens and closes no literal. -/
theorem Picked.after_text {α : Type} {meaning : α → String} {s : QuoteState} {trace : Trace α}
    (picked : Picked name s trace) : s.after (trace.text meaning) = s.after trace.source := by
  induction trace generalizing s with
  | nil => rfl
  | cons segment trace ih =>
    cases segment with
    | kept c => exact ih picked
    | placed source value =>
      obtain ⟨rfl, occurrence, -, behind⟩ := picked
      rw [Trace.text_cons, Trace.source_cons, after_append, after_append, Segment.text,
        (within_asLiteral _).2, Segment.source, occurrence.closed isName]
      exact ih behind

end Variable

theorem isPrefixOf_append {part cs rest : List Char} {c : Char} (absent : c ∉ part) :
    part.isPrefixOf (cs ++ c :: rest) = part.isPrefixOf cs := by
  induction part generalizing cs with
  | nil => rfl
  | cons d part ih =>
    cases cs with
    | nil =>
      have other : d ≠ c := by
        rintro rfl
        exact absent (.head _)
      simp [List.isPrefixOf, other]
    | cons e cs => simp [List.isPrefixOf, ih fun member => absent (.tail _ member)]

/-- Whether a name stands at the front of a text does not depend on a parenthesis behind the text. -/
theorem occurrence?_append {name cs rest : List Char} (absent : ')' ∉ name) :
    occurrence? name (cs ++ ')' :: rest) = occurrence? name cs := by
  have quoted (quote : Char) (other : ')' ≠ quote) :
      (quote :: name ++ [quote]).isPrefixOf (cs ++ ')' :: rest) =
        (quote :: name ++ [quote]).isPrefixOf cs :=
    isPrefixOf_append (by simp [absent, other])
  have word : isWordChar ')' = false := by decide
  unfold occurrence?
  rw [quoted '"' (by decide), quoted '\'' (by decide), isPrefixOf_append absent]
  cases front : name.isPrefixOf cs with
  | false => simp
  | true =>
    obtain ⟨left, rfl⟩ := List.isPrefixOf_iff_prefix.mp front
    have ends : startsInWord (left ++ ')' :: rest) = startsInWord left := by
      cases left with
      | nil => exact word
      | cons c left => rfl
    simp only [List.append_assoc, List.drop_left, ends]

private theorem isName_me : IsName Variables.me.toList where
  exists_cons := ⟨'@', ['m', 'e'], rfl, by decide, List.all_eq_true.mp (by decide)⟩
  keyword := by decide

private theorem readsApart_me (value : List Char) :
    ReadsApart (variableRule Variables.me.toList value) where
  fits := by
    intro before cs piece picked
    rw [variableRule_eq isName_me] at picked
    obtain ⟨width, found, rfl⟩ := Option.map_eq_some_iff.mp picked
    obtain ⟨source, rest, rfl, rfl, -⟩ := occurrence?_some found
    split <;> simp
  inner := by
    intro before front back rest closed some
    have state : outside.after (front.reverse ++ '(' :: before).reverse =
        outside.after front.reverse.reverse := by
      simp [after_append, closed, next_plain (show isQuote '(' = false by decide)]
    rw [variableRule_eq isName_me, variableRule_eq isName_me, occurrence?_append (by decide), state]
    cases found : occurrence? Variables.me.toList back with
    | none => rfl
    | some width =>
      obtain ⟨source, left, rfl, rfl, -⟩ := occurrence?_some found
      simp
  plain := by
    intro before rest c member
    have absent : occurrence? Variables.me.toList (c :: rest) = none := by
      have apart : c ≠ '@' ∧ c ≠ '"' ∧ c ≠ '\'' := by
        refine ⟨?_, ?_, ?_⟩ <;> rintro rfl <;> revert member <;> decide
      simp [occurrence?, Variables.me, List.isPrefixOf, apart.1.symm, apart.2.1.symm, apart.2.2.symm]
    rw [variableRule_eq isName_me, absent, Option.map_none]

def Variables.BindsAtMostMe (bindings : Variables) : Prop :=
  bindings = [] ∨ ∃ login, bindings = Variables.ofUser login

section Expanding
variable {bindings : Variables} (bound : bindings.BindsAtMostMe)
include bound

private theorem after_substitute (cs : List Char) :
    outside.after (bindings.substitute cs) = outside.after cs := by
  obtain rfl | ⟨login, rfl⟩ := bound
  · rfl
  · obtain ⟨trace, rfl, picked, said⟩ := exists_trace isName_me.ne_nil isName_me.quoteFree [] cs
    rw [Variables.ofUser, substitute_single (by decide), substituteOne, replacePieces, said]
    exact picked.after_text isName_me

omit bound in
private theorem closed_of_lexes_expand {cs : List Char} {tokens : List Token}
    (lexes : Lexes (expand bindings cs) tokens) :
    outside.after (bindings.substitute cs) = outside := by
  have same : outside.after (expand bindings cs) = outside.after (bindings.substitute cs) :=
    after_replaceFrom_durationRule [] (bindings.substitute cs)
  rw [← same, lexes.closed]

private theorem substitute_grouped {cs more between : List Char}
    (closed : outside.after cs = outside) (connects : ∀ c ∈ between, c ∈ connectors) :
    bindings.substitute (grouped cs ++ (between ++ grouped more)) =
      grouped (bindings.substitute cs) ++ (between ++ grouped (bindings.substitute more)) := by
  obtain rfl | ⟨login, rfl⟩ := bound
  · rfl
  · simp only [Variables.ofUser, substitute_single (show Variables.me ≠ "" by decide)]
    exact (readsApart_me login.toList).replacePieces_grouped closed connects

/-- Two queries in parentheses are expanded each on its own. -/
theorem expand_grouped {cs more between : List Char} {tokens : List Token}
    (lexes : Lexes (expand bindings cs) tokens) (connects : ∀ c ∈ between, c ∈ connectors) :
    expand bindings (grouped cs ++ (between ++ grouped more)) =
      grouped (expand bindings cs) ++ (between ++ grouped (expand bindings more)) := by
  have inner := closed_of_lexes_expand lexes
  have outer : outside.after cs = outside := by rw [← after_substitute bound, inner]
  rw [expand, substitute_grouped bound outer connects, durationsInSeconds,
    readsApart_durationRule.replacePieces_grouped inner connects]
  rfl

theorem expand_single (cs : List Char) :
    expand bindings (grouped cs) = grouped (expand bindings cs) := by
  have substituted : bindings.substitute (grouped cs) = grouped (bindings.substitute cs) := by
    obtain rfl | ⟨login, rfl⟩ := bound
    · rfl
    · simp only [Variables.ofUser, substitute_single (show Variables.me ≠ "" by decide)]
      exact (readsApart_me login.toList).replacePieces_single cs
  rw [expand, substituted]
  exact readsApart_durationRule.replacePieces_single _

end Expanding

theorem Lexes.spells_grouped {cs : List Char} {tokens : List Token} (lexes : Lexes cs tokens) :
    Spells (grouped cs) (.openParen :: (tokens ++ [.closeParen])) := by
  intro rest others delimited behind
  have inner := lexes.append (delimited_cons (by simp) rest).breaks (lexes_closeParen behind) (by simp)
  simpa [grouped] using lexes_openParen inner

end PullQuery.Query
