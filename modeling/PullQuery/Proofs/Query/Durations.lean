import PullQuery.Query.Duration
import PullQuery.Proofs.Query.Scanning
import PullQuery.Proofs.Text.Segments

/-! Durations next to literals. A duration ends in front of a quote and does not begin in a literal,
so the durations of a text with placed literals are those of what was kept, whatever the literals
say. -/
namespace PullQuery.Query
open PullQuery.Number PullQuery.Text QuoteState Lexeme

def AtQuote (cs : List Char) : Prop := ∀ c ∈ cs.head?, isQuote c = true

/-- No duration in front goes on into the text. -/
def EndsDuration (cs : List Char) : Prop :=
  ∀ c ∈ cs.head?, isDecimal c = false ∧ isWordChar c = false ∧ c ≠ '.'

private theorem AtQuote.stops {p : Char → Bool} (apart : ∀ c, isQuote c = true → p c = false)
    {cs : List Char} (quote : AtQuote cs) : StopsRun p cs :=
  fun c first => apart c (quote c first)

private theorem AtQuote.head?_ne {cs : List Char} (quote : AtQuote cs) {c : Char}
    (plain : isQuote c = false) : cs.head? ≠ some c := by
  intro first
  have quoted := quote c first
  simp [plain] at quoted

theorem isDecimal_of_isQuote (c : Char) (quote : isQuote c = true) : isDecimal c = false := by
  simp only [isQuote, Bool.or_eq_true, beq_iff_eq] at quote
  rcases quote with rfl | rfl <;> decide

theorem isWordChar_of_isQuote (c : Char) (quote : isQuote c = true) : isWordChar c = false := by
  simp only [isQuote, Bool.or_eq_true, beq_iff_eq] at quote
  rcases quote with rfl | rfl <;> decide

private theorem AtQuote.endsDuration {cs : List Char} (quote : AtQuote cs) : EndsDuration cs := by
  intro c first
  have quoted := quote c first
  refine ⟨isDecimal_of_isQuote c quoted, isWordChar_of_isQuote c quoted, ?_⟩
  rintro rfl
  simp [isQuote] at quoted

theorem EndsDuration.stopsDigit {cs : List Char} (ends : EndsDuration cs) :
    StopsRun Char.isDigit cs := by
  intro c first
  cases digit : c.isDigit with
  | false => rfl
  | true => simpa [isDecimal_of_isDigit digit] using (ends c first).1

theorem EndsDuration.startsFraction {cs : List Char} (ends : EndsDuration cs) :
    startsFraction cs = false := by
  match cs with
  | [] | [_] => rfl
  | c :: d :: _ =>
    have other := (ends c rfl).2.2
    simp [Lexeme.startsFraction, other]

private theorem takeWhile_append_stops {p : Char → Bool} (cs : List Char) {rest : List Char}
    (stops : StopsRun p rest) :
    (cs ++ rest).takeWhile p = cs.takeWhile p ∧
      (cs ++ rest).dropWhile p = cs.dropWhile p ++ rest := by
  induction cs with
  | nil => exact @run_split p [] rest (by simp) stops
  | cons c cs ih =>
    cases holds : p c <;> simp [holds, ih]

namespace Duration

theorem unsigned_plain {cs : List Char} (plain : cs.head? ≠ some '-') : unsigned cs = cs := by
  unfold unsigned
  split
  · simp at plain
  · rfl

theorem decimals_plain {cs : List Char} (plain : cs.head? ≠ some '.') : decimals cs = [] := by
  unfold decimals
  split
  · simp at plain
  · rfl

theorem unsigned_append {cs : List Char} (some : cs ≠ []) (rest : List Char) :
    unsigned (cs ++ rest) = unsigned cs ++ rest := by
  obtain ⟨c, cs, rfl⟩ := List.exists_cons_of_ne_nil some
  by_cases sign : c = '-'
  · subst sign
    rfl
  · rw [unsigned_plain (by simpa using sign), unsigned_plain (by simpa using sign)]

theorem decimals_append (cs : List Char) {rest : List Char} (ends : EndsDuration rest) :
    decimals (cs ++ rest) = decimals cs := by
  match cs with
  | [] => exact decimals_plain fun point => (ends '.' point).2.2 rfl
  | c :: cs =>
    by_cases point : c = '.'
    · subst point
      exact (takeWhile_append_stops cs fun c first => (ends c first).1).1
    · rw [decimals_plain (by simpa using point), decimals_plain (by simpa using point)]

private theorem length_decimals {cs : List Char} (some : decimals cs ≠ []) :
    (decimals cs).length + 1 ≤ cs.length := by
  unfold decimals at *
  split at some
  · exact Nat.succ_le_succ (List.takeWhile_sublist _).length_le
  · exact absurd rfl some

theorem behindNumber_append (cs : List Char) {rest : List Char} (ends : EndsDuration rest) :
    behindNumber (cs ++ rest) = behindNumber cs ++ rest := by
  have dropped := (takeWhile_append_stops cs fun c first => (ends c first).1).2
  unfold behindNumber
  simp only [dropped, decimals_append _ ends]
  split
  · rfl
  · rename_i some
    have bound := length_decimals (by simpa using some)
    rw [List.drop_append_of_le_length bound]

/-- What ends a duration has no say in whether there is one in front of it. -/
theorem scan?_front {cs : List Char} (some : cs ≠ []) {rest : List Char}
    (ends : EndsDuration rest) : scan? (cs ++ rest) = scan? cs := by
  obtain ⟨whole, behind⟩ := takeWhile_append_stops (unsigned cs) fun c first => (ends c first).1
  have word := (takeWhile_append_stops (behindNumber (unsigned cs))
    fun c first => (ends c first).2.1).1
  obtain ⟨c, cs, rfl⟩ := List.exists_cons_of_ne_nil some
  unfold scan?
  simp only [unsigned_append some, behindNumber_append _ ends, whole, behind, word,
    decimals_append _ ends, List.length_append, Nat.add_sub_add_right]
  rfl

theorem scan?_plain {cs : List Char} (plain : cs.head? ≠ some '-') (stops : StopsRun isDecimal cs) :
    scan? cs = none := by
  have whole : cs.takeWhile isDecimal = [] := (@run_split isDecimal [] cs (by simp) stops).1
  unfold scan?
  simp [unsigned_plain plain, whole]

/-- A quote ends a duration in front of it, and none begins with one. -/
theorem scan?_append (cs : List Char) {rest : List Char} (quote : AtQuote rest) :
    scan? (cs ++ rest) = scan? cs := by
  by_cases empty : cs = []
  · subst empty
    exact scan?_plain (quote.head?_ne rfl) (quote.stops isDecimal_of_isQuote)
  · exact scan?_front empty quote.endsDuration

private theorem length_unsigned (cs : List Char) : (unsigned cs).length ≤ cs.length := by
  unfold unsigned
  split <;> simp

private theorem length_behindNumber (cs : List Char) :
    (behindNumber cs).length ≤ (cs.dropWhile isDecimal).length := by
  unfold behindNumber
  simp only
  split <;> simp

private theorem scan?_width {cs : List Char} {d : Duration} {width : Nat}
    (found : scan? cs = some (d, width)) : 0 < width ∧ width ≤ cs.length := by
  unfold scan? at found
  simp only at found
  split at found
  · simp at found
  · rename_i digits
    obtain ⟨unit, -, made⟩ := Option.map_eq_some_iff.mp found
    obtain ⟨-, rfl⟩ := Prod.mk.inj made
    have positive : 0 < ((unsigned cs).takeWhile isDecimal).length := by
      simpa [List.length_pos_iff] using digits
    have whole := congrArg List.length
      (@List.takeWhile_append_dropWhile _ isDecimal (unsigned cs))
    have word := (List.takeWhile_sublist isWordChar (l := behindNumber (unsigned cs))).length_le
    have behind := length_behindNumber (unsigned cs)
    have body := length_unsigned cs
    rw [List.length_append] at whole
    omega

end Duration

theorem scan?_split {cs : List Char} {d : Duration} {width : Nat}
    (found : Duration.scan? cs = some (d, width)) :
    ∃ source rest, cs = source ++ rest ∧ source ≠ [] ∧ source.length = width ∧
      ∀ c ∈ source, isQuote c = false := by
  obtain ⟨run, rest, rfl, all, stops⟩ := exists_run (fun c => !isQuote c) cs
  have quote : AtQuote rest := fun c first => by simpa using stops c first
  rw [Duration.scan?_append run quote] at found
  obtain ⟨positive, bound⟩ := Duration.scan?_width found
  refine ⟨run.take width, run.drop width ++ rest, ?_, ?_, ?_, ?_⟩
  · rw [← List.append_assoc, List.take_append_drop]
  · exact List.ne_nil_of_length_pos (by rw [List.length_take]; omega)
  · rw [List.length_take]
    omega
  · intro c member
    simpa using all c (List.mem_of_mem_take member)

theorem Lexeme.Spelling.within {quote : Char} {body content : List Char}
    (spelling : Spelling quote body content) :
    (inside quote).Within body ∧ (inside quote).after body = inside quote := by
  induction spelling with
  | nil => exact ⟨trivial, rfl⟩
  | plain c notQuote notEscape spelling ih =>
    rw [within_inner notQuote notEscape, after_inner notQuote notEscape]
    exact ih
  | escape c meant escapes spelling ih =>
    rw [within_escape, after_escape]
    exact ih

theorem within_asLiteral (cs : List Char) :
    (inside '"').Within (escapeQuoted cs ++ ['"']) ∧ outside.after (asLiteral cs) = outside := by
  obtain ⟨within, ends⟩ := (spelling_escapeQuoted cs).within
  refine ⟨within_append.mpr ⟨within, ?_, trivial⟩, ?_⟩
  · simp [ends]
  · show ((inside '"').after (escapeQuoted cs ++ ['"'])) = outside
    rw [after_append, ends]
    rfl

theorem durationRule_quote {before rest : List Char} {c : Char} (quote : isQuote c = true) :
    durationRule before (c :: rest) = none := by
  have none := @Duration.scan?_append [] (c :: rest) (by simpa [AtQuote] using quote)
  rw [List.nil_append] at none
  simp [durationRule, none, show Duration.scan? [] = .none from rfl]

/-- Induction along a text within a literal in the steps that rewriting its durations takes, up to the
next quote or the end. -/
@[elab_as_elim]
theorem within_induction {rest : List Char} (quote : AtQuote rest)
    {motive : List Char → List Char → Prop} (nil : ∀ before, motive before [])
    (keep : ∀ before c body, Duration.scan? (c :: (body ++ rest)) = none →
      motive (c :: before) body → motive before (c :: body))
    (piece : ∀ before source more d, source ≠ [] →
      Duration.scan? (source ++ (more ++ rest)) = some (d, source.length) →
      outside.after before.reverse ≠ outside → motive (source.reverse ++ before) more →
      motive before (source ++ more))
    {before body : List Char} (within : (outside.after before.reverse).Within body) :
    motive before body := by
  induction size : body.length using Nat.strongRecOn generalizing before body with
  | ind size ih =>
    subst size
    cases body with
    | nil => exact nil before
    | cons c body =>
      have whole := Duration.scan?_append (c :: body) quote
      cases found : Duration.scan? (c :: body) with
      | none =>
        rw [found] at whole
        refine keep before c body whole (ih body.length (by simp) ?_ rfl)
        rw [after_reverse_cons]
        exact within.2
      | some front =>
        obtain ⟨source, more, split, nonempty, width, -⟩ := scan?_split found
        have inner : outside.after before.reverse ≠ outside := within.1
        rw [split] at within ⊢
        rw [found, split, List.append_assoc] at whole
        refine piece before source more front.1 nonempty (by rw [whole, width]) inner
          (ih more.length (shorter_behind nonempty split) ?_ rfl)
        rw [after_reverse_append]
        exact (within_append.mp within).2

/-- Inside of a literal durations stay, up to the next quote or the end. -/
theorem replaceFrom_durationRule_within {before body rest : List Char}
    (within : (outside.after before.reverse).Within body) (quote : AtQuote rest) :
    replaceFrom durationRule before 0 (body ++ rest) =
      body ++ replaceFrom durationRule (body.reverse ++ before) 0 rest := by
  refine within_induction quote (fun before => rfl) ?_ ?_ within
  · intro before c body none behind
    have passed : durationRule before (c :: (body ++ rest)) = .none := by simp [durationRule, none]
    rw [List.cons_append, replaceFrom_keep passed, behind]
    simp
  · intro before source more d nonempty found inner behind
    have stays : durationRule before (source ++ (more ++ rest)) = some ⟨source.length, source⟩ := by
      simp [durationRule, found, inner]
    rw [List.append_assoc, replaceFrom_piece nonempty stays, behind]
    simp

theorem replaceFrom_durationRule_literal {before body : List Char} {quote : Char}
    (outer : outside.after before.reverse = outside) (quoted : isQuote quote = true)
    (within : (inside quote).Within body) (rest : List Char) :
    replaceFrom durationRule before 0 (quote :: (body ++ [quote]) ++ rest) =
      quote :: (body ++ [quote]) ++
        replaceFrom durationRule ((quote :: (body ++ [quote])).reverse ++ before) 0 rest := by
  have opens : outside.after (quote :: before).reverse = inside quote := by
    rw [after_reverse_cons, outer, next_quote quoted]
  have closing : AtQuote (quote :: rest) := by simpa [AtQuote] using quoted
  have inner := replaceFrom_durationRule_within (opens ▸ within) closing
  have first := @replaceFrom_keep durationRule before (body ++ quote :: rest) quote
    (durationRule_quote quoted)
  have last := @replaceFrom_keep durationRule (body.reverse ++ quote :: before) rest quote
    (durationRule_quote quoted)
  rw [last] at inner
  simp [first, inner]

theorem replaceFrom_durationRule_asLiteral {before : List Char}
    (outer : outside.after before.reverse = outside) (cs rest : List Char) :
    replaceFrom durationRule before 0 (asLiteral cs ++ rest) =
      asLiteral cs ++ replaceFrom durationRule ('"' :: ((escapeQuoted cs).reverse ++ '"' :: before))
        0 rest := by
  have literal := replaceFrom_durationRule_literal outer rfl (spelling_escapeQuoted cs).within.1 rest
  simpa [asLiteral] using literal

def Duration.rewritten (d : Duration) (source : List Char) (free : Bool) : List Char :=
  if free then d.seconds?.elim source intDigits else source

theorem isQuote_of_isDigit {c : Char} (digit : c.isDigit = true) : isQuote c = false := by
  cases quote : isQuote c with
  | false => rfl
  | true => simp [isDigit_of_isQuote quote] at digit

private theorem quoteFree_intDigits (n : Int) : ∀ c ∈ intDigits n, isQuote c = false := by
  have digits : ∀ c ∈ natDigits n.natAbs, isQuote c = false := fun c member =>
    isQuote_of_isDigit (isDigit_of_mem_natDigits member)
  unfold intDigits
  split
  · simpa using ⟨rfl, digits⟩
  · exact digits

theorem startsWithQuote_eq (cs : List Char) : startsWithQuote cs = cs.head?.any isQuote := by
  cases cs <;> rfl

theorem mayFollow_append {cs : List Char} (some : cs ≠ []) (rest : List Char) :
    mayFollow (cs ++ rest) = mayFollow cs := by
  obtain ⟨c, cs, rfl⟩ := List.exists_cons_of_ne_nil some
  rfl

theorem durationRule_found {before run rest source left : List Char} {d : Duration} {width : Nat}
    (found : Duration.scan? run = some (d, width)) (split : run = source ++ left)
    (size : source.length = width) (quote : AtQuote rest) :
    durationRule before (run ++ rest) =
      some ⟨source.length, d.rewritten source (outside.after before.reverse == outside &&
        mayFollow before && !(left.head?.or rest.head?).any isQuote)⟩ := by
  subst size split
  have front : ((source ++ left) ++ rest).take source.length = source := by simp
  have behind : ((source ++ left) ++ rest).drop source.length = left ++ rest := by simp
  simp only [durationRule, Duration.scan?_append _ quote, found, Option.bind_eq_bind,
    Option.bind_some, front, behind, startsWithQuote_eq, List.head?_append, Duration.rewritten]
  split
  · cases d.seconds? <;> rfl
  · rfl

theorem Duration.rewritten_plain (d : Duration) {source : List Char}
    (plain : ∀ c ∈ source, isQuote c = false) (free : Bool) :
    ∀ c ∈ d.rewritten source free, isQuote c = false := by
  unfold rewritten
  split
  · cases d.seconds? with
    | none => exact plain
    | some seconds => exact quoteFree_intDigits seconds
  · exact plain

/-- A duration is rewritten outside of the literals only, where nothing depends on it. -/
theorem Duration.after_rewritten (d : Duration) {source : List Char}
    (plain : ∀ c ∈ source, isQuote c = false) (s : QuoteState) (free : Bool) :
    s.after (d.rewritten source (s == outside && free)) = s.after source := by
  by_cases outer : s = outside
  · rw [outer, after_quoteFree (d.rewritten_plain plain _), after_quoteFree plain]
  · have inner : (s == outside) = false := by simpa using outer
    simp [rewritten, inner]

/-- What the rule of the durations does at a place. Neither the piece nor what stands for it holds a
quote, and neither opens or closes a literal. -/
theorem durationRule_cases (before cs : List Char) :
    durationRule before cs = none ∨
      ∃ source left text, cs = source ++ left ∧ source ≠ [] ∧
        durationRule before cs = some ⟨source.length, text⟩ ∧
        (∀ c ∈ source, isQuote c = false) ∧ (∀ c ∈ text, isQuote c = false) ∧
        (outside.after before.reverse).after text = (outside.after before.reverse).after source := by
  cases found : Duration.scan? cs with
  | none => exact .inl (by simp [durationRule, found])
  | some front =>
    obtain ⟨d, width⟩ := front
    obtain ⟨source, left, split, some, size, plain⟩ := scan?_split found
    have picked := @durationRule_found before _ [] _ _ _ _ found split size (by simp [AtQuote])
    rw [List.append_nil, Bool.and_assoc] at picked
    exact .inr ⟨source, left, _, split, some, picked, plain, d.rewritten_plain plain _,
      d.after_rewritten plain _ _⟩

/-- Induction along a text in the steps that rewriting its durations takes. -/
@[elab_as_elim]
theorem durations_induction {motive : List Char → List Char → Prop}
    (nil : ∀ before, motive before [])
    (keep : ∀ before c cs, durationRule before (c :: cs) = none → motive (c :: before) cs →
      motive before (c :: cs))
    (piece : ∀ before source left text, source ≠ [] →
      durationRule before (source ++ left) = some ⟨source.length, text⟩ →
      (outside.after before.reverse).after text = (outside.after before.reverse).after source →
      motive (source.reverse ++ before) left → motive before (source ++ left))
    (before cs : List Char) : motive before cs := by
  induction size : cs.length using Nat.strongRecOn generalizing before cs with
  | ind size ih =>
    subst size
    cases cs with
    | nil => exact nil before
    | cons c cs =>
      obtain passed | ⟨source, left, text, split, some, picked, -, -, same⟩ :=
        durationRule_cases before (c :: cs)
      · exact keep before c cs passed (ih cs.length (by simp) _ cs rfl)
      · have behind := ih left.length (shorter_behind some split) (source.reverse ++ before) left rfl
        rw [split] at picked ⊢
        exact piece before source left text some picked same behind

def RewritesDurations {α : Type} (s : QuoteState) (free : Bool) (trace : Trace α) : Prop :=
  ∃ rewritten : Trace α, Trace.Apart s rewritten ∧
    ∀ (meaning : α → String) (before : List Char), outside.after before.reverse = s →
      mayFollow before = free →
      replaceFrom durationRule before 0 (trace.text meaning) = rewritten.text meaning

section Trace
variable {α : Type} {trace behind : Trace α} {free : Bool}

private theorem RewritesDurations.placed (source : List Char) (value : α)
    (rest : RewritesDurations outside false trace) :
    RewritesDurations outside free (.placed source value :: trace) := by
  obtain ⟨rewritten, ends, said⟩ := rest
  refine ⟨.placed source value :: rewritten, ⟨rfl, ends⟩, ?_⟩
  intro meaning before outer _
  have literal := (within_asLiteral (meaning value).toList).2
  have behind := said meaning ('"' :: ((escapeQuoted (meaning value).toList).reverse ++
    '"' :: before)) (by simpa [after_append, outer, asLiteral] using literal) rfl
  rw [Trace.text_cons, Segment.text, replaceFrom_durationRule_asLiteral outer, behind]
  rfl

section Run
variable {s : QuoteState} {run : List Char}
  (quote : ∀ meaning : α → String, AtQuote (behind.text meaning))
include quote

private theorem RewritesDurations.kept {c : Char}
    (split : .kept c :: trace = Trace.kept run ++ behind) (found : Duration.scan? run = none)
    (rest : RewritesDurations (s.next c) (mayFollow [c]) trace) :
    RewritesDurations s free (.kept c :: trace) := by
  obtain ⟨rewritten, apart, said⟩ := rest
  refine ⟨.kept c :: rewritten, apart, ?_⟩
  intro meaning before state _
  have passed : durationRule before (c :: Trace.text meaning trace) = none := by
    have whole : c :: Trace.text meaning trace = run ++ behind.text meaning := by
      rw [← Trace.text_kept meaning run, ← Trace.text_append, ← split]
      rfl
    simp [durationRule, whole, Duration.scan?_append run (quote meaning), found]
  have rest := said meaning (c :: before) (by simp [after_append, state]) rfl
  rw [Trace.text_cons, Segment.text, List.singleton_append, replaceFrom_keep passed, rest]
  rfl

private theorem RewritesDurations.duration {source left : List Char} {d : Duration}
    (found : Duration.scan? (source ++ left) = some (d, source.length)) (some : source ≠ [])
    (plain : ∀ c ∈ source, isQuote c = false)
    (rest : RewritesDurations (s.after source) (mayFollow source.reverse)
      (Trace.kept left ++ behind)) :
    RewritesDurations s free (Trace.kept (source ++ left) ++ behind) := by
  obtain ⟨rewritten, apart, said⟩ := rest
  let clear := free && !(left.head?.or behind.lead?).any isQuote
  refine ⟨Trace.kept (d.rewritten source (s == outside && clear)) ++ rewritten, ?_, ?_⟩
  · rw [Trace.apart_kept_append, d.after_rewritten plain]
    exact apart
  · intro meaning before state allowed
    have picked := @durationRule_found before _ _ _ _ _ _ found rfl rfl (quote meaning)
    have behindText := said meaning (source.reverse ++ before)
      (by simp [after_append, state]) (mayFollow_append (by simpa using some) before)
    rw [state, allowed, Trace.head?_text, Bool.and_assoc, List.append_assoc] at picked
    rw [Trace.text_append, Trace.text_kept, List.append_assoc, replaceFrom_piece some picked,
      Trace.text_append, Trace.text_kept, ← behindText, Trace.text_append, Trace.text_kept]

end Run

theorem exists_trace_durations (s : QuoteState) (free : Bool) (trace : Trace α)
    (apart : Trace.Apart s trace) : RewritesDurations s free trace := by
  induction size : trace.length using Nat.strongRecOn generalizing s free trace with
  | ind size ih =>
    subst size
    match trace with
    | [] => exact ⟨[], trivial, fun _ _ _ _ => rfl⟩
    | .placed source value :: trace =>
      obtain ⟨rfl, apart⟩ := apart
      exact .placed source value (ih trace.length (by simp) outside false trace apart rfl)
    | .kept c :: trace =>
      -- No duration reaches over a quote, so what stands before the next one decides.
      obtain ⟨run, behind, split, plain, quote⟩ := Trace.exists_quoteFree (.kept c :: trace)
      have ends (meaning : α → String) : AtQuote (behind.text meaning) := by
        unfold AtQuote
        rwa [Trace.head?_text]
      cases found : Duration.scan? run with
      | none => exact .kept ends split found (ih trace.length (by simp) _ _ trace apart rfl)
      | some front =>
        obtain ⟨d, width⟩ := front
        obtain ⟨source, left, rfl, some, rfl, -⟩ := scan?_split found
        have shorter : (Trace.kept left ++ behind).length < (Segment.kept c :: trace).length := by
          have positive := List.length_pos_iff.mpr some
          rw [split]
          simp [Trace.kept]
          omega
        rw [split] at apart ⊢
        have inner : Trace.Apart (s.after source) (Trace.kept left ++ behind) := by
          rw [Trace.apart_kept_append, ← after_append]
          exact Trace.apart_kept_append.mp apart
        have bare : ∀ c ∈ source, isQuote c = false := fun c member => plain c (by simp [member])
        exact .duration ends found some bare (ih _ shorter _ _ _ inner rfl)

end Trace
end PullQuery.Query
