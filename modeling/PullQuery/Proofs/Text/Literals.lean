import PullQuery.Text.Quoted

/-! How a scan moves over the literals of a text, and which literal holds a given place. Inside of a
literal the scan stays inside until the closing quote, so the span that holds a place is told by the
state of the scan there and by the text behind it. -/
namespace PullQuery.Text

private theorem not_isQuote_backslash {quote : Char} (quoted : isQuote quote = true) :
    quote ≠ '\\' := by
  rintro rfl
  simp [isQuote] at quoted

theorem shorter_behind {cs source rest : List Char} (some : source ≠ [])
    (split : cs = source ++ rest) : rest.length < cs.length := by
  have positive := List.length_pos_iff.mpr some
  rw [split, List.length_append]
  omega

theorem split_before_quote {source left body rest : List Char} {quote : Char}
    (free : ∀ c ∈ source, isQuote c = false) (quoted : isQuote quote = true)
    (split : source ++ left = body ++ quote :: rest) :
    ∃ more, body = source ++ more ∧ left = more ++ quote :: rest := by
  obtain ⟨more, rfl, rfl⟩ | ⟨more, rfl, same⟩ := List.append_eq_append_iff.mp split
  · exact ⟨more, rfl, rfl⟩
  · cases more with
    | nil => exact ⟨[], by simp, same.symm⟩
    | cons c more =>
      obtain ⟨rfl, -⟩ := List.cons.inj same
      have plain := free quote (by simp)
      simp [quoted] at plain

namespace QuoteState

@[simp] theorem after_nil (s : QuoteState) : s.after [] = s := rfl

@[simp] theorem after_cons (s : QuoteState) (c : Char) (cs : List Char) :
    s.after (c :: cs) = (s.next c).after cs := rfl

theorem after_append (s : QuoteState) (cs rest : List Char) :
    s.after (cs ++ rest) = (s.after cs).after rest := List.foldl_append

theorem after_reverse_cons (s : QuoteState) (before : List Char) (c : Char) :
    s.after (c :: before).reverse = (s.after before.reverse).next c := by
  rw [List.reverse_cons, after_append]
  rfl

theorem after_reverse_append (s : QuoteState) (before source : List Char) :
    s.after (source.reverse ++ before).reverse = (s.after before.reverse).after source := by
  rw [List.reverse_append, List.reverse_reverse, after_append]

theorem next_plain {c : Char} (plain : isQuote c = false) : outside.next c = outside := by
  simp [next, plain]

theorem next_quote {c : Char} (quote : isQuote c = true) : outside.next c = inside c := by
  simp [next, quote]

theorem next_closing {quote : Char} (quoted : isQuote quote = true) :
    (inside quote).next quote = outside := by
  simp [next, not_isQuote_backslash quoted]

theorem next_backslash (quote : Char) : (inside quote).next '\\' = escaped quote := by simp [next]

theorem next_inner {quote c : Char} (notQuote : c ≠ quote) (notEscape : c ≠ '\\') :
    (inside quote).next c = inside quote := by simp [next, notQuote, notEscape]

/-- Inside of a literal only its closing quote leads out of it. -/
theorem next_stands {quote : Char} {s : QuoteState} (stands : s = inside quote ∨ s = escaped quote)
    (c : Char) : (s = inside quote ∧ c = quote ∧ s.next c = outside) ∨
      s.next c = inside quote ∨ s.next c = escaped quote := by
  rcases stands with rfl | rfl
  · by_cases escape : c = '\\'
    · exact .inr (.inr (escape ▸ next_backslash quote))
    · by_cases closes : c = quote
      · exact .inl ⟨rfl, closes, by rw [next, if_neg escape, if_pos closes]⟩
      · exact .inr (.inl (next_inner closes escape))
  · exact .inr (.inl rfl)

theorem after_inner {quote c : Char} (notQuote : c ≠ quote) (notEscape : c ≠ '\\') (cs : List Char) :
    (inside quote).after (c :: cs) = (inside quote).after cs := by
  rw [after_cons, next_inner notQuote notEscape]

theorem after_escape (quote c : Char) (cs : List Char) :
    (inside quote).after ('\\' :: c :: cs) = (inside quote).after cs := by
  rw [after_cons, next_backslash]
  rfl

theorem after_quoteFree {cs : List Char} (free : ∀ c ∈ cs, isQuote c = false) :
    outside.after cs = outside := by
  induction cs with
  | nil => rfl
  | cons c cs ih =>
    rw [after_cons, next_plain (free c (.head _))]
    exact ih fun d member => free d (.tail _ member)

/-- The scan is inside of a literal in front of every character. -/
def Within : QuoteState → List Char → Prop
  | _, [] => True
  | s, c :: cs => s ≠ outside ∧ Within (s.next c) cs

theorem within_inner {quote c : Char} (notQuote : c ≠ quote) (notEscape : c ≠ '\\') {cs : List Char} :
    (inside quote).Within (c :: cs) ↔ (inside quote).Within cs := by
  simp [Within, next_inner notQuote notEscape]

theorem within_escape {quote : Char} (c : Char) {cs : List Char} :
    (inside quote).Within ('\\' :: c :: cs) ↔ (inside quote).Within cs := by
  simp [Within, next]

def OpensNone : QuoteState → List Char → Prop
  | _, [] => True
  | s, c :: cs => (s = outside → isQuote c = false) ∧ OpensNone (s.next c) cs

theorem Within.opensNone {s : QuoteState} {cs : List Char} (within : s.Within cs) :
    s.OpensNone cs := by
  induction cs generalizing s with
  | nil => trivial
  | cons c cs ih => exact ⟨fun equal => absurd equal within.1, ih within.2⟩

theorem opensNone_of_quoteFree {cs : List Char} (free : ∀ c ∈ cs, isQuote c = false)
    (s : QuoteState) : s.OpensNone cs := by
  induction cs generalizing s with
  | nil => trivial
  | cons c cs ih =>
    exact ⟨fun _ => free c (.head _), ih (fun d member => free d (.tail _ member)) _⟩

theorem within_append {s : QuoteState} {cs rest : List Char} :
    s.Within (cs ++ rest) ↔ s.Within cs ∧ (s.after cs).Within rest := by
  induction cs generalizing s with
  | nil => simp [Within]
  | cons c cs ih => simp [Within, ih, and_assoc]

theorem within_quoteFree {quote : Char} {cs : List Char} (quoted : isQuote quote = true)
    (free : ∀ c ∈ cs, isQuote c = false) :
    (inside quote).Within cs ∧
      ((inside quote).after cs = inside quote ∨ (inside quote).after cs = escaped quote) := by
  suffices both : ∀ s, s = inside quote ∨ s = escaped quote →
      s.Within cs ∧ (s.after cs = inside quote ∨ s.after cs = escaped quote) from both _ (.inl rfl)
  induction cs with
  | nil => exact fun s stands => ⟨trivial, stands⟩
  | cons c cs ih =>
    intro s stands
    have other : c ≠ quote := by
      rintro rfl
      simp [free c (.head _)] at quoted
    have next := (next_stands stands c).resolve_left fun closes => other closes.2.1
    have behind := ih (fun d member => free d (.tail _ member)) (s.next c) next
    exact ⟨⟨by rcases stands with rfl | rfl <;> simp, behind.1⟩, behind.2⟩

theorem within_quoted {quote : Char} {name : List Char} (quoted : isQuote quote = true)
    (free : ∀ c ∈ name, isQuote c = false) : (inside quote).Within (name ++ [quote]) := by
  obtain ⟨within, stands⟩ := within_quoteFree quoted free
  refine within_append.mpr ⟨within, ?_, trivial⟩
  rcases stands with stands | stands <;> simp [stands]

end QuoteState

open QuoteState

def literalRest : QuoteState → List Char → Nat
  | .outside, _ | _, [] => 0
  | s, c :: cs => literalRest (s.next c) cs + 1

private theorem literalRest_cons {s : QuoteState} (inner : s ≠ .outside) (c : Char)
    (cs : List Char) :
    literalRest s (c :: cs) = literalRest (s.next c) cs + 1 := by
  cases s <;> first | exact absurd rfl inner | rfl

theorem literalRest_eq_zero {s : QuoteState} {cs : List Char} :
    literalRest s cs = 0 ↔ s = .outside ∨ cs = [] := by
  cases s <;> cases cs <;> simp [literalRest]

theorem literalRest_append {s : QuoteState} {cs : List Char} (within : s.Within cs)
    (rest : List Char) :
    literalRest s (cs ++ rest) = cs.length + literalRest (s.after cs) rest := by
  induction cs generalizing s with
  | nil => simp
  | cons c cs ih =>
    rw [List.cons_append, literalRest_cons within.1, ih within.2, List.length_cons, after_cons]
    omega

private theorem spansFrom_inner (offset opened : Nat) {s : QuoteState} (inner : s ≠ .outside)
    (cs : List Char) :
    (spansFrom offset opened s cs).head? = some ⟨opened, offset + literalRest s cs⟩ := by
  induction cs generalizing offset s with
  | nil => cases s <;> first | exact absurd rfl inner | rfl
  | cons c cs ih =>
    rw [literalRest_cons inner, Nat.add_comm _ 1, ← Nat.add_assoc]
    cases s with
    | outside => exact absurd rfl inner
    | inside quote =>
      rw [spansFrom]
      by_cases closes : (inside quote).next c = .outside
      · simp [closes, literalRest]
      · rw [if_neg closes]
        exact ih _ closes
    | escaped quote => exact ih _ (by simp)

theorem start_of_mem_spansFrom {low offset opened : Nat} {s : QuoteState} {cs : List Char}
    {span : Span} (member : span ∈ spansFrom offset opened s cs) (first : low ≤ offset)
    (inner : s ≠ .outside → low ≤ opened) : low ≤ span.start := by
  induction cs generalizing offset opened s with
  | nil =>
    cases s with
    | outside => simp [spansFrom] at member
    | inside quote | escaped quote =>
      obtain rfl : span = ⟨opened, offset⟩ := by simpa [spansFrom] using member
      exact inner (by simp)
  | cons c cs ih =>
    have next : low ≤ offset + 1 := by omega
    cases s with
    | outside => exact ih member next fun _ => first
    | escaped quote => exact ih member next fun _ => inner (by simp)
    | inside quote =>
      rw [spansFrom] at member
      split at member
      · rcases List.mem_cons.mp member with rfl | later
        · exact inner (by simp)
        · exact ih later next fun other => absurd rfl other
      · exact ih member next fun _ => inner (by simp)

/-- Which span holds a place does not depend on the literals that end in front of it. -/
theorem find?_spansFrom_append {offset opened place : Nat} {s : QuoteState}
    (inner : s ≠ .outside → opened < offset) (before after : List Char)
    (reached : place = offset + before.length) :
    ∃ begun, (s.after before ≠ .outside → begun < place) ∧
      (spansFrom offset opened s (before ++ after)).find? (·.holds place) =
        (spansFrom place begun (s.after before) after).find? (·.holds place) := by
  induction before generalizing offset opened s with
  | nil => exact ⟨opened, by simpa [reached] using inner, by simp [reached]⟩
  | cons c before ih =>
    rw [List.length_cons] at reached
    have next : place = offset + 1 + before.length := by omega
    cases s with
    | outside => exact ih (fun _ => Nat.lt_succ_self offset) next
    | escaped quote => exact ih (fun _ => by have := inner (by simp); omega) next
    | inside quote =>
      have earlier : opened < offset + 1 := by have := inner (by simp); omega
      obtain ⟨begun, bound, found⟩ := ih (fun _ => earlier) next
      refine ⟨begun, bound, ?_⟩
      rw [List.cons_append, spansFrom]
      by_cases closes : (inside quote).next c = .outside
      · have passed : (⟨opened, offset + 1⟩ : Span).holds place = false := by
          simp [Span.holds]
          omega
        rw [if_pos closes, List.find?_cons_of_neg (by simp [passed]), ← closes]
        exact found
      · rw [if_neg closes]
        exact found

private theorem find?_literalSpans (before : List Char) {c : Char} {after : List Char} :
    ∃ begun, (QuoteState.outside.after before ≠ .outside → begun < before.length) ∧
      (literalSpans (before ++ c :: after)).find? (·.holds before.length) =
        (spansFrom before.length begun (QuoteState.outside.after before) (c :: after)).find?
          (·.holds before.length) :=
  @find?_spansFrom_append 0 0 _ .outside (absurd rfl) before _ (Nat.zero_add _).symm

private theorem find?_spansFrom_inner {place begun : Nat} {s : QuoteState} (inner : s ≠ .outside)
    (bound : begun ≤ place) (c : Char) (after : List Char) :
    (spansFrom place begun s (c :: after)).find? (·.holds place) =
      some ⟨begun, place + literalRest s (c :: after)⟩ := by
  have first := spansFrom_inner place begun inner (c :: after)
  have holds : (⟨begun, place + literalRest s (c :: after)⟩ : Span).holds place = true := by
    simp [Span.holds, bound, literalRest_cons inner]
  obtain ⟨others, split⟩ := List.head?_eq_some_iff.mp first
  rw [split]
  exact List.find?_cons_of_pos holds

theorem find?_literalSpans_inner {before : List Char}
    (inner : QuoteState.outside.after before ≠ .outside) (c : Char) (after : List Char) :
    ∃ span, (literalSpans (before ++ c :: after)).find? (·.holds before.length) = some span ∧
      span.start < before.length := by
  obtain ⟨begun, bound, found⟩ := @find?_literalSpans before c after
  have earlier := bound inner
  exact ⟨_, found.trans (find?_spansFrom_inner inner (Nat.le_of_lt earlier) c after), earlier⟩

theorem find?_literalSpans_plain {before : List Char}
    (outer : QuoteState.outside.after before = .outside) {c : Char} (plain : isQuote c = false)
    (after : List Char) :
    (literalSpans (before ++ c :: after)).find? (·.holds before.length) = none := by
  obtain ⟨begun, -, found⟩ := @find?_literalSpans before c after
  rw [found, outer, spansFrom, next_plain plain, List.find?_eq_none]
  intro span member holds
  have low := start_of_mem_spansFrom member (Nat.le_refl _) (absurd rfl)
  simp [Span.holds] at holds
  omega

theorem find?_literalSpans_quote {before : List Char}
    (outer : QuoteState.outside.after before = .outside) {c : Char} (quote : isQuote c = true)
    (after : List Char) :
    (literalSpans (before ++ c :: after)).find? (·.holds before.length) =
      some ⟨before.length, before.length + 1 + literalRest (.inside c) after⟩ := by
  obtain ⟨begun, -, found⟩ := @find?_literalSpans before c after
  have first := spansFrom_inner (before.length + 1) before.length
    (show QuoteState.inside c ≠ .outside by simp) after
  obtain ⟨others, split⟩ := List.head?_eq_some_iff.mp first
  rw [found, outer, spansFrom, next_quote quote, split, List.find?_cons_of_pos]
  simp [Span.holds]
  omega

end PullQuery.Text
