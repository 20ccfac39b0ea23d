import PullQuery.Proofs.Text.Partition

/-! How the literals lie in a text. They stand one behind the other, each of them begins at a quote, and
no quote is around them. Only the last one can lack its closing quote, and a scan that has passed the
text is outside of the literals exactly if it does not. -/
namespace PullQuery.Text
open QuoteState

/-- Induction along a text in steps of a character outside of the literals or of a whole literal. -/
@[elab_as_elim]
theorem literal_induction {motive : List Char → Prop} (nil : motive [])
    (plain : ∀ c rest, isQuote c = false → motive rest → motive (c :: rest))
    (closed : ∀ quote body rest, isQuote quote = true → IsBody quote body → motive rest →
      motive (quote :: (body ++ [quote]) ++ rest))
    (leftOpen : ∀ quote rest, isQuote quote = true → LeavesOpen quote rest → motive (quote :: rest))
    (cs : List Char) : motive cs := by
  induction size : cs.length using Nat.strongRecOn generalizing cs with
  | ind size ih =>
    subst size
    cases cs with
    | nil => exact nil
    | cons c rest =>
      cases quoted : isQuote c with
      | false => exact plain c rest quoted (ih _ (by simp) rest rfl)
      | true =>
        obtain ⟨body, left, rfl, isBody⟩ | leavesOpen := exists_body c rest
        · have behind := closed c body left quoted isBody (ih _ (by simp; omega) left rfl)
          simpa using behind
        · exact leftOpen c rest quoted leavesOpen

section Front
variable {c : Char} {rest : List Char}

theorem literalSpans_plain (plain : isQuote c = false) :
    literalSpans (c :: rest) = (literalSpans rest).map (Span.shift 1) := by
  have none : literalSpans [c] = [] := spansFrom_quoteFree (by simpa using plain) 0 0
  have ends : outside.after [c] = outside := next_plain plain
  rw [← List.singleton_append, literalSpans_append ends, none]
  rfl

theorem literalSpans_closed {quote : Char} (quoted : isQuote quote = true) {body : List Char}
    (isBody : IsBody quote body) :
    literalSpans (quote :: (body ++ [quote]) ++ rest) =
      ⟨0, (quote :: (body ++ [quote])).length⟩ ::
        (literalSpans rest).map (Span.shift (quote :: (body ++ [quote])).length) := by
  rw [literalSpans_append (isBody.after_literal quoted), literalSpans, spansFrom_literal quoted isBody]
  simp

theorem literalSpans_open (quoted : isQuote c = true) (leavesOpen : LeavesOpen c rest) :
    literalSpans (c :: rest) = [⟨0, (c :: rest).length⟩] := by
  rw [literalSpans, spansFrom_open quoted leavesOpen, Nat.zero_add, List.length_cons]

end Front

private theorem Span.holds_shift (offset : Nat) (span : Span) (k : Nat) :
    (span.shift offset).holds (offset + k) = span.holds k := by
  simp [holds, shift]

/-- Some spans of a text, in their order and apart from each other, that take its quotes: each of them
begins at a quote, and there are no quotes around them. -/
structure IsLayout (cs : List Char) (spans : List Span) : Prop where
  within : ∀ span ∈ spans, span.start < span.stop ∧ span.stop ≤ cs.length
  apart : spans.Pairwise fun span next => span.stop ≤ next.start
  opens : ∀ span ∈ spans, ∃ quote, cs[span.start]? = some quote ∧ isQuote quote = true
  between : ∀ (k : Nat) (c : Char), cs[k]? = some c → (∀ span ∈ spans, span.holds k = false) →
    isQuote c = false

namespace IsLayout

theorem nil : IsLayout [] [] := ⟨by simp, .nil, by simp, by simp⟩

theorem plain {c : Char} (plain : isQuote c = false) : IsLayout [c] [] := by
  refine ⟨by simp, .nil, by simp, fun k d found _ => ?_⟩
  obtain ⟨rfl, rfl⟩ : k = 0 ∧ c = d := by simpa [List.getElem?_singleton] using found
  exact plain

theorem whole {quote : Char} (quoted : isQuote quote = true) (rest : List Char) :
    IsLayout (quote :: rest) [⟨0, (quote :: rest).length⟩] := by
  refine ⟨by simp, List.pairwise_singleton _ _, by simpa using quoted, fun k c found outside => ?_⟩
  obtain ⟨inside, -⟩ := List.getElem?_eq_some_iff.mp found
  simp [Span.holds] at outside
  simp at inside
  omega

theorem append {cs rest : List Char} {spans others : List Span} (front : IsLayout cs spans)
    (behind : IsLayout rest others) :
    IsLayout (cs ++ rest) (spans ++ others.map (Span.shift cs.length)) where
  within := by
    intro span member
    rw [List.length_append]
    rcases List.mem_append.mp member with first | later
    · have bounds := front.within span first
      omega
    · obtain ⟨span, listed, rfl⟩ := List.mem_map.mp later
      have bounds := behind.within span listed
      simp only [Span.shift]
      omega
  apart := by
    refine List.pairwise_append.mpr ⟨front.apart, List.pairwise_map.mpr ?_, ?_⟩
    · exact behind.apart.imp fun apart => Nat.add_le_add_left apart _
    · intro span first next later
      obtain ⟨next, -, rfl⟩ := List.mem_map.mp later
      exact Nat.le_trans (front.within span first).2 (Nat.le_add_right _ _)
  opens := by
    intro span member
    rcases List.mem_append.mp member with first | later
    · have bounds := front.within span first
      rw [List.getElem?_append_left (by omega)]
      exact front.opens span first
    · obtain ⟨span, listed, rfl⟩ := List.mem_map.mp later
      rw [Span.shift, List.getElem?_append_right (Nat.le_add_right _ _), Nat.add_sub_cancel_left]
      exact behind.opens span listed
  between := by
    intro k c found outside
    obtain ⟨first, later⟩ := List.forall_mem_append.mp outside
    by_cases early : k < cs.length
    · rw [List.getElem?_append_left early] at found
      exact front.between k c found first
    · obtain ⟨k, rfl⟩ := Nat.exists_eq_add_of_le (Nat.le_of_not_lt early)
      rw [List.getElem?_append_right (Nat.le_add_right _ _), Nat.add_sub_cancel_left] at found
      refine behind.between k c found fun span listed => ?_
      rw [← Span.holds_shift cs.length]
      exact later _ (List.mem_map_of_mem listed)

theorem eq_or_apart {cs : List Char} {spans : List Span} (layout : IsLayout cs spans)
    {span other : Span} (first : span ∈ spans) (second : other ∈ spans) :
    span = other ∨ span.stop ≤ other.start ∨ other.stop ≤ span.start := by
  obtain ⟨i, _, rfl⟩ := List.mem_iff_getElem.mp first
  obtain ⟨j, _, rfl⟩ := List.mem_iff_getElem.mp second
  have ordered := List.pairwise_iff_getElem.mp layout.apart
  rcases Nat.lt_trichotomy i j with before | rfl | behind
  · exact .inr (.inl (ordered i j _ _ before))
  · exact .inl rfl
  · exact .inr (.inr (ordered j i _ _ behind))

end IsLayout

theorem isLayout_literalSpans (cs : List Char) : IsLayout cs (literalSpans cs) := by
  induction cs using literal_induction with
  | nil => exact .nil
  | plain c rest plain ih =>
    rw [literalSpans_plain plain]
    exact (IsLayout.plain plain).append ih
  | closed quote body rest quoted isBody ih =>
    rw [literalSpans_closed quoted isBody]
    exact (IsLayout.whole quoted _).append ih
  | leftOpen quote rest quoted leavesOpen =>
    rw [literalSpans_open quoted leavesOpen]
    exact .whole quoted rest

/-- A text that ends at a quote of the kind, with no other one in it but behind a backslash that takes it
along. -/
inductive Closes (quote : Char) : List Char → Prop
  | quote : Closes quote [quote]
  | plain {c : Char} {rest : List Char} (notQuote : c ≠ quote) (notEscape : c ≠ '\\')
      (behind : Closes quote rest) : Closes quote (c :: rest)
  | escaped (c : Char) {rest : List Char} (behind : Closes quote rest) :
      Closes quote ('\\' :: c :: rest)

def IsTerminated (literal : List Char) : Prop :=
  ∃ quote rest, isQuote quote = true ∧ literal = quote :: rest ∧ Closes quote rest

private theorem Closes.exists_body {quote : Char} {rest : List Char} (closes : Closes quote rest) :
    ∃ body, rest = body ++ [quote] ∧ IsBody quote body := by
  induction closes with
  | quote => exact ⟨[], rfl, trivial, rfl⟩
  | @plain c rest notQuote notEscape behind ih =>
    obtain ⟨body, rfl, within, ends⟩ := ih
    refine ⟨c :: body, rfl, (within_inner notQuote notEscape).mpr within, ?_⟩
    rwa [after_inner notQuote notEscape]
  | escaped c behind ih =>
    obtain ⟨body, rfl, within, ends⟩ := ih
    refine ⟨'\\' :: c :: body, rfl, (within_escape c).mpr within, ?_⟩
    rwa [after_escape]

private theorem IsBody.closes {quote : Char} {body : List Char} (isBody : IsBody quote body) :
    Closes quote (body ++ [quote]) := by
  -- The induction has to go on behind a backslash too, so it covers both states within the literal.
  suffices both : (IsBody quote body → Closes quote (body ++ [quote])) ∧
      ((escaped quote).Within body → (escaped quote).after body = inside quote →
        Closes quote ('\\' :: (body ++ [quote]))) from both.1 isBody
  clear isBody
  induction body with
  | nil => exact ⟨fun _ => .quote, fun _ ends => by simp at ends⟩
  | cons c body ih =>
    refine ⟨fun ⟨within, ends⟩ => ?_, fun within ends => .escaped c (ih.1 ⟨within.2, ends⟩)⟩
    have inner := within.2
    rw [after_cons] at ends
    by_cases escapes : c = '\\'
    · subst escapes
      rw [next_backslash] at inner ends
      exact ih.2 inner ends
    · by_cases closing : c = quote
      · have next : (inside quote).next c = outside := by
          rw [QuoteState.next, if_neg escapes, if_pos closing]
        rw [next] at inner ends
        cases body with
        | nil => simp at ends
        | cons d body => exact absurd rfl inner.1
      · rw [next_inner closing escapes] at inner ends
        exact .plain closing escapes (ih.1 ⟨inner, ends⟩)

theorem isTerminated_iff {literal : List Char} :
    IsTerminated literal ↔
      ∃ quote body, isQuote quote = true ∧ literal = quote :: (body ++ [quote]) ∧ IsBody quote body := by
  constructor
  · rintro ⟨quote, rest, quoted, rfl, closes⟩
    obtain ⟨body, rfl, isBody⟩ := closes.exists_body
    exact ⟨quote, body, quoted, rfl, isBody⟩
  · rintro ⟨quote, body, quoted, rfl, isBody⟩
    exact ⟨quote, _, quoted, rfl, isBody.closes⟩

/-- A scan ends outside of the literals exactly if each of them is terminated. -/
theorem terminated_iff {cs : List Char} :
    (∀ literal ∈ literals cs, IsTerminated literal) ↔ outside.after cs = outside := by
  induction cs using literal_induction with
  | nil => exact ⟨fun _ => rfl, fun _ => by simp [literals, literalSpans, spansFrom]⟩
  | plain c rest plain ih => rw [literals_plain plain, after_cons, next_plain plain, ih]
  | closed quote body rest quoted isBody ih =>
    have terminated := isTerminated_iff.mpr ⟨quote, body, quoted, rfl, isBody⟩
    rw [literals_closed quoted isBody, List.forall_mem_cons, after_append, isBody.after_literal quoted,
      ih, and_iff_right terminated]
  | leftOpen quote rest quoted leavesOpen =>
    rw [literals_open quoted leavesOpen, List.forall_mem_singleton, after_cons, next_quote quoted]
    refine iff_of_false (fun terminated => ?_) leavesOpen.2
    obtain ⟨other, body, -, same, isBody⟩ := isTerminated_iff.mp terminated
    obtain ⟨rfl, rfl⟩ := List.cons.inj same
    refine leavesOpen.2 ?_
    have closed := isBody.after_literal quoted
    rwa [after_cons, next_quote quoted] at closed

end PullQuery.Text
