import PullQuery.Proofs.Query.Cuts
import PullQuery.Proofs.Query.Substitution

/-! Where the name of a variable is picked in a text that is cut into its tokens. Outside of the
literals it is picked wherever it stands, also within a longer word. Inside of a literal nothing is
replaced, but a pick there may begin at the closing quote and reach over what follows. -/
namespace PullQuery.Query
open PullQuery.Text QuoteState Lexeme

/-- The name stands at the front of the text, and ends there if it ends like a word. -/
def StandsAt (name text : List Char) : Prop :=
  ∃ rest, text = name ++ rest ∧ (endsInWord name = true → lastInWord name ≠ startsInWord rest)

theorem standsAt_iff {name text : List Char} :
    StandsAt name text ↔ name <+: text ∧
      (endsInWord name = true → lastInWord name ≠ startsInWord (text.drop name.length)) := by
  constructor
  · rintro ⟨rest, rfl, ends⟩
    exact ⟨List.prefix_append name rest, by simpa using ends⟩
  · rintro ⟨⟨rest, rfl⟩, ends⟩
    exact ⟨rest, rfl, by simpa using ends⟩

instance (name text : List Char) : Decidable (StandsAt name text) :=
  decidable_of_iff _ standsAt_iff.symm

namespace IsName
variable {name : List Char} (isName : IsName name)
include isName

theorem ne_nil : name ≠ [] := by
  obtain ⟨c, run, rfl, -⟩ := isName.exists_cons
  simp

theorem quoteFree : ∀ c ∈ name, isQuote c = false := by
  obtain ⟨c, run, rfl, start, all⟩ := isName.exists_cons
  intro d member
  rcases List.mem_cons.mp member with rfl | part
  · exact isQuote_of_isNameStart start
  · exact isQuote_of_isNamePart (all d part)

theorem not_escape : '\\' ∉ name := by
  obtain ⟨c, run, rfl, start, all⟩ := isName.exists_cons
  intro member
  rcases List.mem_cons.mp member with same | part
  · exact absurd (same ▸ start) (by decide)
  · exact absurd (all _ part) (by decide)

omit isName in
theorem occurrence?_plain {c : Char} (plain : isQuote c = false) (rest : List Char) {width : Nat} :
    occurrence? name (c :: rest) = some width ↔ StandsAt name (c :: rest) ∧ width = name.length := by
  have other : '"' ≠ c ∧ '\'' ≠ c := by
    constructor <;> rintro rfl <;> simp [isQuote] at plain
  have stands : (name.isPrefixOf (c :: rest) && (!endsInWord name ||
      lastInWord name != startsInWord ((c :: rest).drop name.length))) = true ↔
        StandsAt name (c :: rest) := by
    rw [standsAt_iff]
    simp only [Bool.and_eq_true, List.isPrefixOf_iff_prefix, Bool.or_eq_true, Bool.not_eq_true',
      bne_iff_ne, ← Bool.not_eq_true, imp_iff_not_or]
  have quotes : (('"' :: name ++ ['"']).isPrefixOf (c :: rest) ||
      ('\'' :: name ++ ['\'']).isPrefixOf (c :: rest)) = false := by
    simp [List.isPrefixOf, other]
  unfold occurrence?
  rw [quotes, if_neg (by simp), ← stands]
  split
  · rename_i front
    exact ⟨fun same => ⟨front, (Option.some.inj same).symm⟩, fun same => congrArg some same.2.symm⟩
  · rename_i other
    simp [other]

theorem occurrence?_quote {quote : Char} (quoted : isQuote quote = true) (rest : List Char)
    {width : Nat} :
    occurrence? name (quote :: rest) = some width ↔
      name ++ [quote] <+: rest ∧ width = name.length + 2 := by
  have bare : name.isPrefixOf (quote :: rest) = false := by
    have free := isName.quoteFree
    obtain ⟨c, run, rfl, -⟩ := isName.exists_cons
    have other : c ≠ quote := by
      rintro rfl
      simp [free c (.head _)] at quoted
    simp [List.isPrefixOf, other]
  have quotes : (('"' :: name ++ ['"']).isPrefixOf (quote :: rest) ||
      ('\'' :: name ++ ['\'']).isPrefixOf (quote :: rest)) = true ↔ name ++ [quote] <+: rest := by
    simp only [isQuote, Bool.or_eq_true, beq_iff_eq] at quoted
    rcases quoted with rfl | rfl <;> simp [List.isPrefixOf]
  unfold occurrence?
  rw [bare, Bool.false_and, if_neg (show ¬ false = true by simp), ← quotes]
  split
  · rename_i front
    exact ⟨fun same => ⟨front, (Option.some.inj same).symm⟩, fun same => congrArg some same.2.symm⟩
  · rename_i other
    exact ⟨fun same => by simp at same, fun same => absurd same.1 other⟩

section Rewriting
variable (value : List Char)

theorem replaceFrom_stands {before rest : List Char}
    (outer : outside.after before.reverse = outside) (stands : StandsAt name (name ++ rest)) :
    replaceFrom (variableRule name value) before 0 (name ++ rest) =
      asLiteral value ++
        replaceFrom (variableRule name value) (name.reverse ++ before) 0 rest := by
  have found : occurrence? name (name ++ rest) = some name.length := by
    have free := isName.quoteFree
    obtain ⟨c, run, same, -⟩ := isName.exists_cons
    rw [same, List.cons_append] at stands ⊢
    exact (occurrence?_plain (free c (same ▸ .head _)) _).mpr ⟨stands, rfl⟩
  have does := @variableRule_found name isName.ne_nil isName.quoteFree before name rest .bare found
  exact replaceFrom_piece isName.ne_nil
    ((does value).1 ⟨outer, .inl (after_quoteFree isName.quoteFree)⟩)

omit isName in
theorem replaceFrom_absent {before rest : List Char} {c : Char}
    (absent : occurrence? name (c :: rest) = none) :
    replaceFrom (variableRule name value) before 0 (c :: rest) =
      c :: replaceFrom (variableRule name value) (c :: before) 0 rest :=
  replaceFrom_keep (by simp [variableRule, absent])

omit isName in
theorem replaceFrom_pass {before rest : List Char} {c : Char} (plain : isQuote c = false)
    (absent : ¬ StandsAt name (c :: rest)) :
    replaceFrom (variableRule name value) before 0 (c :: rest) =
      c :: replaceFrom (variableRule name value) (c :: before) 0 rest := by
  refine replaceFrom_absent value (Option.eq_none_iff_forall_ne_some.mpr fun width found => ?_)
  exact absent ((occurrence?_plain plain rest).mp found).1

theorem replaceFrom_pass_quote {before rest : List Char} {quote : Char}
    (quoted : isQuote quote = true) (absent : ¬ name ++ [quote] <+: rest) :
    replaceFrom (variableRule name value) before 0 (quote :: rest) =
      quote :: replaceFrom (variableRule name value) (quote :: before) 0 rest := by
  refine replaceFrom_absent value (Option.eq_none_iff_forall_ne_some.mpr fun width found => ?_)
  exact absent ((isName.occurrence?_quote quoted rest).mp found).1

theorem replaceFrom_plain {before run rest : List Char}
    (outer : outside.after before.reverse = outside) (free : ∀ c ∈ run, isQuote c = false) :
    (∀ front behind, run = front ++ behind → behind ≠ [] → ¬ StandsAt name (behind ++ rest)) ∧
        replaceFrom (variableRule name value) before 0 (run ++ rest) =
          run ++ replaceFrom (variableRule name value) (run.reverse ++ before) 0 rest ∨
      ∃ front behind others, run = front ++ behind ∧ behind ≠ [] ∧
        StandsAt name (behind ++ rest) ∧
        replaceFrom (variableRule name value) before 0 (run ++ rest) =
          front ++ (asLiteral value ++ others) := by
  induction run generalizing before with
  | nil => exact .inl ⟨by simp, rfl⟩
  | cons c run ih =>
    have plain := free c (.head _)
    by_cases stands : StandsAt name (c :: (run ++ rest))
    · obtain ⟨behind, split, ends⟩ := stands
      have replaced := isName.replaceFrom_stands value outer ⟨behind, rfl, ends⟩
      rw [← split] at replaced
      exact .inr ⟨[], c :: run, _, rfl, by simp, ⟨behind, split, ends⟩, replaced⟩
    · have passed := @replaceFrom_pass name value before _ c plain stands
      have next : outside.after (c :: before).reverse = outside := by
        simp [after_append, outer, next_plain plain]
      rw [List.cons_append, passed]
      obtain ⟨absent, same⟩ | ⟨front, behind, others, rfl, some, stands, same⟩ :=
        ih next fun d member => free d (.tail _ member)
      · refine .inl ⟨?_, by simp [same]⟩
        intro front behind split some
        cases front with
        | nil =>
          obtain rfl : c :: run = behind := split
          exact stands
        | cons d front => exact absent front behind (List.cons.inj split).2 some
      · exact .inr ⟨c :: front, behind, others, rfl, some, stands, congrArg (c :: ·) same⟩

omit isName in
theorem after_plain {quote : Char} (quoted : isQuote quote = true) {cs : List Char}
    (free : ∀ c ∈ cs, isQuote c = false) (plain : '\\' ∉ cs) :
    (inside quote).after cs = inside quote := by
  induction cs with
  | nil => rfl
  | cons c cs ih =>
    have notQuote : c ≠ quote := by
      rintro rfl
      simp [free c (.head _)] at quoted
    have notEscape : c ≠ '\\' := fun same => plain (same ▸ .head _)
    rw [after_inner notQuote notEscape]
    exact ih (fun d member => free d (.tail _ member)) fun member => plain (.tail _ member)

theorem after_quoted {quote : Char} (quoted : isQuote quote = true) :
    (inside quote).after (name ++ [quote]) = outside := by
  rw [after_append, after_plain quoted isName.quoteFree isName.not_escape]
  exact next_closing quoted

theorem replaceFrom_quoted {before rest : List Char} {quote : Char}
    (outer : outside.after before.reverse = outside) (quoted : isQuote quote = true) :
    replaceFrom (variableRule name value) before 0 (quote :: (name ++ [quote]) ++ rest) =
      asLiteral value ++ replaceFrom (variableRule name value)
        ((quote :: (name ++ [quote])).reverse ++ before) 0 rest := by
  have found : occurrence? name (quote :: (name ++ [quote]) ++ rest) =
      some (quote :: (name ++ [quote])).length :=
    (isName.occurrence?_quote quoted _).mpr ⟨List.prefix_append _ _, by simp⟩
  have closed : outside.after (quote :: (name ++ [quote])) = outside := by
    rw [after_cons, next_quote quoted]
    exact isName.after_quoted quoted
  have does := @variableRule_found name isName.ne_nil isName.quoteFree before _ rest
    (.quoted quoted) found
  exact replaceFrom_piece (List.cons_ne_nil _ _) ((does value).1 ⟨outer, .inl closed⟩)

theorem replaceFrom_left {before source rest : List Char} (occurrence : IsOccurrence name source)
    (found : occurrence? name (source ++ rest) = some source.length)
    (inner : outside.after before.reverse ≠ outside) :
    replaceFrom (variableRule name value) before 0 (source ++ rest) =
      source ++ replaceFrom (variableRule name value) (source.reverse ++ before) 0 rest := by
  have does := @variableRule_found name isName.ne_nil isName.quoteFree before source rest
    occurrence found
  exact replaceFrom_piece (occurrence.ne_nil isName.ne_nil)
    ((does value).2 fun picked => inner picked.1)

omit isName in
private theorem inner_after {quote : Char} {s : QuoteState} {cs : List Char}
    (stands : s = inside quote ∨ s = escaped quote) (within : s.Within cs)
    (inner : s.after cs ≠ outside) : s.after cs = inside quote ∨ s.after cs = escaped quote := by
  induction cs generalizing s with
  | nil => exact stands
  | cons c cs ih =>
    by_cases closed : s.next c = outside
    · cases cs with
      | nil => exact absurd closed inner
      | cons d cs => exact absurd closed within.2.1
    · have next := (next_stands stands c).resolve_left fun closes => closed closes.2.2
      exact ih next within.2 inner

omit isName in
theorem suffix_of_append {quote : Char} {part more : List Char} (free : quote ∉ part)
    (ends : quote :: name <:+ part ++ more) : quote :: name <:+ more := by
  obtain ⟨front, split⟩ := ends
  obtain ⟨between, rfl, same⟩ | ⟨between, -, rfl⟩ := List.append_eq_append_iff.mp split
  · cases between with
    | nil => exact ⟨[], same⟩
    | cons c between =>
      obtain ⟨rfl, -⟩ := List.cons.inj same
      simp at free
  · exact ⟨between, rfl⟩

/-- One step of the scan inside of a literal: it moves over a part of the literal without losing a
quoted name at its end, or takes such a name to the end of the literal. -/
private def StepsWithin (name value : List Char) (quote : Char) (before body rest : List Char) :
    Prop :=
  (body = quote :: name ∧
      replaceFrom (variableRule name value) before 0 (body ++ quote :: rest) =
        body ++ quote :: replaceFrom (variableRule name value)
          (quote :: (body.reverse ++ before)) 0 rest) ∨
    ∃ part more, body = part ++ more ∧ part ≠ [] ∧
      (quote :: name <:+ body → quote :: name <:+ more) ∧
      replaceFrom (variableRule name value) before 0 (body ++ quote :: rest) =
        part ++ replaceFrom (variableRule name value) (part.reverse ++ before) 0
          (more ++ quote :: rest)

private theorem stepsWithin_plain {quote c : Char} {body before rest : List Char}
    (quoted : isQuote quote = true) (plain : isQuote c = false)
    (inner : outside.after before.reverse ≠ outside) :
    StepsWithin name value quote before (c :: body) rest := by
  have free : quote ∉ name := fun member => by simp [isName.quoteFree _ member] at quoted
  have other : quote ≠ c := by
    rintro rfl
    simp [quoted] at plain
  by_cases stands : StandsAt name (c :: body ++ quote :: rest)
  · obtain ⟨behind, split, ends⟩ := stands
    obtain ⟨more, same, rfl⟩ := split_before_quote isName.quoteFree quoted split.symm
    have found : occurrence? name (name ++ (more ++ quote :: rest)) = some name.length := by
      have width := (occurrence?_plain plain (body ++ quote :: rest)).mpr ⟨⟨_, split, ends⟩, rfl⟩
      rwa [← List.cons_append, split] at width
    refine .inr ⟨name, more, same, isName.ne_nil, fun suffix => ?_, ?_⟩
    · exact suffix_of_append free (same ▸ suffix)
    · rw [split]
      exact isName.replaceFrom_left value .bare found inner
  · have keeps : quote :: name <:+ [c] ++ body → quote :: name <:+ body :=
      suffix_of_append (by simpa using other)
    exact .inr ⟨[c], body, rfl, by simp, keeps, replaceFrom_pass value plain stands⟩

/-- Inside of a literal the name does not stand between two of the quotes that close it. -/
theorem not_within_quoted {quote : Char} (quoted : isQuote quote = true) {s : QuoteState}
    (stands : s = inside quote ∨ s = escaped quote) (more : List Char) :
    ¬ s.Within (quote :: name ++ quote :: (more ++ [quote])) := by
  intro within
  rw [within_append] at within
  have ends : s.after (quote :: name) = inside quote := by
    rcases stands with rfl | rfl
    · have closed := within.1.2
      obtain ⟨d, run, rfl, -⟩ := isName.exists_cons
      rw [next_closing quoted] at closed
      exact absurd rfl closed.1
    · exact after_plain quoted isName.quoteFree isName.not_escape
  rw [ends] at within
  have closed := within.2.2
  rw [next_closing quoted] at closed
  cases more <;> exact closed.1 rfl

private theorem stepsWithin_quote {quote c : Char} {body before rest : List Char}
    (quoted : isQuote quote = true) (quotes : isQuote c = true)
    (within : (outside.after before.reverse).Within (c :: body ++ [quote]))
    (stands : outside.after before.reverse = inside quote ∨
      outside.after before.reverse = escaped quote) :
    StepsWithin name value quote before (c :: body) rest := by
  by_cases front : name ++ [c] <+: body ++ quote :: rest
  · obtain ⟨behind, split⟩ := front
    rw [List.append_assoc] at split
    have found : occurrence? name (c :: (name ++ [c]) ++ behind) =
        some (c :: (name ++ [c])).length :=
      (isName.occurrence?_quote quotes _).mpr ⟨List.prefix_append _ _, by simp⟩
    have left := isName.replaceFrom_left value (.quoted quotes) found within.1
    obtain ⟨more, rfl, same⟩ := split_before_quote isName.quoteFree quoted split
    cases more with
    | nil =>
      obtain ⟨rfl, rfl⟩ : c = quote ∧ behind = rest := by simpa using same
      refine .inl ⟨by simp, ?_⟩
      simpa using left
    | cons d more =>
      obtain ⟨rfl, rfl⟩ : c = d ∧ behind = more ++ quote :: rest := by simpa using same
      have absent : quote ∉ c :: (name ++ [c]) := by
        have free : quote ∉ name := fun member => by simp [isName.quoteFree _ member] at quoted
        have other : quote ≠ c := by
          rintro rfl
          exact isName.not_within_quoted quoted stands more (by simpa using within)
        simp [other, free]
      refine .inr ⟨c :: (name ++ [c]), more, by simp, by simp, fun suffix => ?_, ?_⟩
      · exact suffix_of_append absent (by simpa using suffix)
      · simpa using left
  · refine .inr ⟨[c], body, rfl, by simp, fun suffix => ?_, ?_⟩
    · obtain same | more := List.suffix_cons_iff.mp suffix
      · obtain ⟨rfl, rfl⟩ := List.cons.inj same
        exact absurd ⟨rest, by simp⟩ front
      · exact more
    · exact isName.replaceFrom_pass_quote value quotes front

private theorem stepsWithin {quote c : Char} {body before rest : List Char}
    (quoted : isQuote quote = true)
    (within : (outside.after before.reverse).Within (c :: body ++ [quote]))
    (stands : outside.after before.reverse = inside quote ∨
      outside.after before.reverse = escaped quote) :
    StepsWithin name value quote before (c :: body) rest := by
  cases quotes : isQuote c with
  | false => exact isName.stepsWithin_plain value quoted quotes within.1
  | true => exact isName.stepsWithin_quote value quoted quotes within stands

/-- The scan of a literal from a place within it: the literal stays, and the text behind it is
scanned anew unless the closing quote is taken for the opening quote of the name. -/
theorem replaceFrom_within {quote : Char} (quoted : isQuote quote = true)
    {body before rest : List Char}
    (within : (outside.after before.reverse).Within (body ++ [quote]))
    (stands : outside.after before.reverse = inside quote ∨
      outside.after before.reverse = escaped quote) :
    ((name ++ [quote] <+: rest → quote :: name <:+ body) →
        replaceFrom (variableRule name value) before 0 (body ++ quote :: rest) =
          body ++ quote :: replaceFrom (variableRule name value)
            (quote :: (body.reverse ++ before)) 0 rest) ∧
      (name ++ [quote] <+: rest → ¬ quote :: name <:+ body →
        ∃ others, replaceFrom (variableRule name value) before 0 (body ++ quote :: rest) =
          body ++ quote :: (name ++ others)) := by
  induction size : body.length using Nat.strongRecOn generalizing body before with
  | ind size ih =>
    subst size
    -- At the closing quote it shows whether the name is taken for a quoted one; before it a step
    -- leaves less of the literal.
    cases body with
    | nil =>
      refine ⟨fun ends => ?_, ?_⟩
      · refine isName.replaceFrom_pass_quote value quoted fun front => ?_
        simpa using ends front
      · rintro ⟨behind, rfl⟩ -
        have inner : outside.after before.reverse ≠ outside := within.1
        have found : occurrence? name (quote :: (name ++ [quote]) ++ behind) =
            some (quote :: (name ++ [quote])).length :=
          (isName.occurrence?_quote quoted _).mpr ⟨List.prefix_append _ _, by simp⟩
        have left := isName.replaceFrom_left value (.quoted quoted) found inner
        exact ⟨quote :: replaceFrom (variableRule name value)
          ((quote :: (name ++ [quote])).reverse ++ before) 0 behind, by simpa using left⟩
    | cons c body =>
      obtain ⟨whole, same⟩ | ⟨part, more, split, some, keeps, same⟩ :=
        @stepsWithin name isName value quote c body before rest quoted within stands
      · exact ⟨fun _ => same, fun _ absent => absurd (whole ▸ List.suffix_rfl) absent⟩
      · have shorter := shorter_behind some split
        rw [split, List.append_assoc, within_append] at within
        have inner : (outside.after before.reverse).after part ≠ outside := by
          have first := within.2
          cases more <;> exact first.1
        have follows := inner_after stands within.1 inner
        rw [← after_append, ← List.reverse_reverse part, ← List.reverse_append] at within follows
        obtain ⟨stays, straddles⟩ := @ih more.length shorter more _ within.2 follows rfl
        have suffix : quote :: name <:+ c :: body ↔ quote :: name <:+ more :=
          ⟨keeps, fun ends => split ▸ ends.trans (List.suffix_append part more)⟩
        rw [same, suffix]
        constructor
        · intro ends
          rw [stays ends, split]
          simp
        · intro front absent
          obtain ⟨others, again⟩ := straddles front absent
          exact ⟨others, by rw [again, split]; simp⟩

theorem replaceFrom_literal {quote : Char} (quoted : isQuote quote = true)
    {body content before rest : List Char} (spelling : Spelling quote body content)
    (outer : outside.after before.reverse = outside) (other : body ≠ name) :
    ((name ++ [quote] <+: rest → quote :: name <:+ body) →
        replaceFrom (variableRule name value) before 0 (quote :: (body ++ [quote]) ++ rest) =
          quote :: (body ++ [quote]) ++ replaceFrom (variableRule name value)
            ((quote :: (body ++ [quote])).reverse ++ before) 0 rest) ∧
      (name ++ [quote] <+: rest → ¬ quote :: name <:+ body →
        ∃ others, replaceFrom (variableRule name value) before 0
            (quote :: (body ++ [quote]) ++ rest) =
          quote :: (body ++ [quote]) ++ (name ++ others)) := by
  obtain ⟨within, ends⟩ := spelling.within
  have closing : (inside quote).Within (body ++ [quote]) :=
    within_append.mpr ⟨within, by simp [ends], trivial⟩
  have absent : ¬ name ++ [quote] <+: body ++ quote :: rest := by
    rintro ⟨behind, split⟩
    rw [List.append_assoc] at split
    obtain ⟨more, rfl, same⟩ := split_before_quote isName.quoteFree quoted split
    cases more with
    | nil => exact other (by simp)
    | cons c more =>
      obtain ⟨rfl, -⟩ := List.cons.inj same
      have split : name ++ quote :: more ++ [quote] =
          (name ++ [quote]) ++ (more ++ [quote]) := by simp
      rw [split, within_append, isName.after_quoted quoted] at closing
      have closed := closing.2
      cases more <;> exact closed.1 rfl
  have opens : outside.after (quote :: before).reverse = inside quote := by
    simp [after_append, outer, next_quote quoted]
  have passed := @replaceFrom_pass_quote name isName value before _ quote quoted absent
  obtain ⟨stays, straddles⟩ := @replaceFrom_within name isName value quote quoted body
    (quote :: before) rest (by rwa [opens]) (.inl opens)
  have text : quote :: (body ++ [quote]) ++ rest = quote :: (body ++ quote :: rest) := by simp
  rw [text, passed]
  constructor
  · intro ends
    rw [stays ends]
    simp
  · intro front absent
    obtain ⟨others, again⟩ := straddles front absent
    exact ⟨others, by rw [again]; simp⟩

end Rewriting

end IsName
end PullQuery.Query
