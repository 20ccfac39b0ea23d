import PullQuery.Proofs.Text.Literals

/-! Which parts of a text are its literals. Behind a text that leaves no literal open they are found as
in the text behind it alone, so the literals of a text are known from its parts: none where there are
no quotes, and the whole of a part that begins with a quote and is closed, or runs to the end. -/
namespace PullQuery.Text
open QuoteState

def Span.shift (offset : Nat) (span : Span) : Span := ⟨offset + span.start, offset + span.stop⟩

def Span.part (cs : List Char) (span : Span) : List Char :=
  (cs.drop span.start).take (span.stop - span.start)

def literals (cs : List Char) : List (List Char) := (literalSpans cs).map (Span.part cs)

/-- The body of a literal, which goes on up to the quote behind it. -/
def IsBody (quote : Char) (body : List Char) : Prop :=
  (inside quote).Within body ∧ (inside quote).after body = inside quote

def LeavesOpen (quote : Char) (cs : List Char) : Prop :=
  (inside quote).Within cs ∧ (inside quote).after cs ≠ outside

theorem exists_body (quote : Char) (cs : List Char) :
    (∃ body rest, cs = body ++ quote :: rest ∧ IsBody quote body) ∨ LeavesOpen quote cs := by
  suffices both : ∀ s, s = inside quote ∨ s = escaped quote →
      (∃ body rest, cs = body ++ quote :: rest ∧ s.Within body ∧ s.after body = inside quote) ∨
        s.Within cs ∧ s.after cs ≠ outside from both _ (.inl rfl)
  induction cs with
  | nil => exact fun s stands => .inr ⟨trivial, by rcases stands with rfl | rfl <;> simp⟩
  | cons c cs ih =>
    intro s stands
    have inner : s ≠ outside := by rcases stands with rfl | rfl <;> simp
    by_cases closes : s = inside quote ∧ c = quote
    · obtain ⟨rfl, rfl⟩ := closes
      exact .inl ⟨[], cs, rfl, trivial, rfl⟩
    · have next := (next_stands stands c).resolve_left fun ends => closes ⟨ends.1, ends.2.1⟩
      obtain ⟨body, rest, rfl, within, ends⟩ | ⟨within, ends⟩ := ih (s.next c) next
      · exact .inl ⟨c :: body, rest, rfl, ⟨inner, within⟩, ends⟩
      · exact .inr ⟨⟨inner, within⟩, ends⟩

theorem IsBody.after_literal {quote : Char} (quoted : isQuote quote = true) {body : List Char}
    (isBody : IsBody quote body) : outside.after (quote :: (body ++ [quote])) = outside := by
  rw [after_cons, next_quote quoted, after_append, isBody.2]
  exact next_closing quoted

theorem IsBody.closing {quote : Char} {body : List Char} (isBody : IsBody quote body) :
    (inside quote).Within (body ++ [quote]) :=
  within_append.mpr ⟨isBody.1, by simp [isBody.2], trivial⟩

/-- Outside of the literals it does not matter where an earlier one began. -/
theorem spansFrom_outside (offset opened other : Nat) (cs : List Char) :
    spansFrom offset opened .outside cs = spansFrom offset other .outside cs := by
  cases cs <;> rfl

theorem spansFrom_append {s : QuoteState} {cs : List Char} (ends : s.after cs = outside)
    (offset opened other : Nat) (rest : List Char) :
    spansFrom offset opened s (cs ++ rest) =
      spansFrom offset opened s cs ++ spansFrom (offset + cs.length) other outside rest := by
  induction cs generalizing offset opened s with
  | nil =>
    obtain rfl : s = outside := ends
    exact spansFrom_outside offset opened other rest
  | cons c cs ih =>
    have later : offset + (c :: cs).length = offset + 1 + cs.length := by
      rw [List.length_cons]
      omega
    rw [later]
    cases s with
    | outside => exact ih ends (offset + 1) offset
    | escaped quote => exact ih ends (offset + 1) opened
    | inside quote =>
      rw [List.cons_append, spansFrom, spansFrom]
      by_cases closes : (inside quote).next c = outside
      · rw [after_cons, closes] at ends
        rw [if_pos closes, if_pos closes, ih ends, List.cons_append]
      · rw [if_neg closes, if_neg closes]
        exact ih ends (offset + 1) opened

private theorem spansFrom_shift (distance offset opened : Nat) (s : QuoteState) (cs : List Char) :
    spansFrom (distance + offset) (distance + opened) s cs =
      (spansFrom offset opened s cs).map (Span.shift distance) := by
  induction cs generalizing offset opened s with
  | nil => cases s <;> rfl
  | cons c cs ih =>
    cases s with
    | outside => exact ih (offset + 1) offset _
    | escaped quote => exact ih (offset + 1) opened _
    | inside quote =>
      rw [spansFrom, spansFrom]
      split
      · rw [List.map_cons, ← ih]
        rfl
      · exact ih (offset + 1) opened _

/-- Behind a text that leaves no literal open the literals are those of the rest. -/
theorem literalSpans_append {cs : List Char} (ends : outside.after cs = outside)
    (rest : List Char) :
    literalSpans (cs ++ rest) = literalSpans cs ++ (literalSpans rest).map (Span.shift cs.length) := by
  have behind := spansFrom_shift cs.length 0 0 outside rest
  rw [literalSpans, spansFrom_append ends 0 0 cs.length, Nat.zero_add]
  exact congrArg (literalSpans cs ++ ·) behind

theorem spansFrom_within {s : QuoteState} {cs : List Char} (within : s.Within cs)
    (ends : s.after cs ≠ outside) (offset opened : Nat) (rest : List Char) :
    spansFrom offset opened s (cs ++ rest) =
      spansFrom (offset + cs.length) opened (s.after cs) rest := by
  induction cs generalizing offset s with
  | nil => rfl
  | cons c cs ih =>
    have behind := ih within.2 ends (offset + 1)
    rw [List.length_cons, Nat.add_comm cs.length, ← Nat.add_assoc]
    cases s with
    | outside => exact absurd rfl within.1
    | escaped quote => exact behind
    | inside quote =>
      have stays : (inside quote).next c ≠ outside := by
        intro closes
        cases cs with
        | nil => exact ends closes
        | cons d cs => exact within.2.1 closes
      rw [List.cons_append, spansFrom, if_neg stays]
      exact behind

theorem spansFrom_quoteFree {cs : List Char} (free : ∀ c ∈ cs, isQuote c = false)
    (offset opened : Nat) : spansFrom offset opened outside cs = [] := by
  induction cs generalizing offset opened with
  | nil => rfl
  | cons c cs ih =>
    rw [spansFrom, next_plain (free c (.head _))]
    exact ih (fun d member => free d (.tail _ member)) _ _

theorem spansFrom_literal {quote : Char} (quoted : isQuote quote = true) {body : List Char}
    (isBody : IsBody quote body) (offset opened : Nat) :
    spansFrom offset opened outside (quote :: (body ++ [quote])) =
      [⟨offset, offset + (body.length + 2)⟩] := by
  have inner : (inside quote).after body ≠ outside := by simp [isBody.2]
  rw [spansFrom, next_quote quoted, spansFrom_within isBody.1 inner, isBody.2, spansFrom,
    if_pos (next_closing quoted), spansFrom]
  simp only [List.cons.injEq, Span.mk.injEq, true_and, and_true]
  omega

theorem spansFrom_open {quote : Char} (quoted : isQuote quote = true) {cs : List Char}
    (leavesOpen : LeavesOpen quote cs) (offset opened : Nat) :
    spansFrom offset opened outside (quote :: cs) = [⟨offset, offset + (cs.length + 1)⟩] := by
  have whole := spansFrom_within leavesOpen.1 leavesOpen.2 (offset + 1) offset []
  rw [List.append_nil] at whole
  rw [spansFrom, next_quote quoted, whole, Nat.add_assoc, Nat.add_comm 1]
  have ends := leavesOpen.2
  generalize (inside quote).after cs = s at ends
  cases s <;> first | exact absurd rfl ends | rfl

private theorem Span.part_shift (cs rest : List Char) (span : Span) :
    (span.shift cs.length).part (cs ++ rest) = span.part rest := by
  rw [part, part, shift, Nat.add_sub_add_left, ← List.drop_drop, List.drop_left]

private theorem stop_of_mem_spansFrom {offset opened : Nat} {s : QuoteState} {cs : List Char}
    {span : Span}
    (member : span ∈ spansFrom offset opened s cs) : span.stop ≤ offset + cs.length := by
  induction cs generalizing offset opened s with
  | nil => cases s <;> simp_all [spansFrom]
  | cons c cs ih =>
    have later : offset + (c :: cs).length = offset + 1 + cs.length := by
      rw [List.length_cons]
      omega
    rw [later]
    cases s with
    | outside => exact ih member
    | escaped quote => exact ih member
    | inside quote =>
      rw [spansFrom] at member
      split at member
      · rcases List.mem_cons.mp member with rfl | behind
        · exact Nat.le_add_right _ _
        · exact ih behind
      · exact ih member

theorem Span.part_append {cs : List Char} {span : Span} (inner : span.stop ≤ cs.length)
    (rest : List Char) : span.part (cs ++ rest) = span.part cs := by
  by_cases empty : span.stop ≤ span.start
  · simp [part, Nat.sub_eq_zero_of_le empty]
  · rw [part, part, List.drop_append_of_le_length (by omega), List.take_append_of_le_length]
    rw [List.length_drop]
    omega

theorem literals_append {cs : List Char} (ends : outside.after cs = outside) (rest : List Char) :
    literals (cs ++ rest) = literals cs ++ literals rest := by
  rw [literals, literalSpans_append ends, List.map_append, List.map_map]
  congr 1
  · refine List.map_congr_left fun span member => Span.part_append ?_ rest
    have inner := stop_of_mem_spansFrom member
    rwa [Nat.zero_add] at inner
  · exact List.map_congr_left fun span _ => Span.part_shift cs rest span

private theorem literals_quoteFree {cs : List Char} (free : ∀ c ∈ cs, isQuote c = false) :
    literals cs = [] := by
  rw [literals, literalSpans, spansFrom_quoteFree free]
  rfl

private theorem literals_literal {quote : Char} (quoted : isQuote quote = true) {body : List Char}
    (isBody : IsBody quote body) :
    literals (quote :: (body ++ [quote])) = [quote :: (body ++ [quote])] := by
  have whole : (body ++ [quote]).take (body.length + 1) = body ++ [quote] :=
    List.take_of_length_le (by simp)
  rw [literals, literalSpans, spansFrom_literal quoted isBody]
  simp [Span.part, whole]

theorem literals_open {quote : Char} (quoted : isQuote quote = true) {cs : List Char}
    (leavesOpen : LeavesOpen quote cs) : literals (quote :: cs) = [quote :: cs] := by
  rw [literals, literalSpans, spansFrom_open quoted leavesOpen]
  simp [Span.part]

section Front
variable {c : Char} {rest : List Char}

theorem literals_plain (plain : isQuote c = false) : literals (c :: rest) = literals rest := by
  have ends : outside.after [c] = outside := next_plain plain
  have none : literals [c] = [] := literals_quoteFree (by simpa using plain)
  rw [← List.singleton_append, literals_append ends, none, List.nil_append]

theorem literals_prefix {run : List Char} (free : ∀ c ∈ run, isQuote c = false) :
    literals (run ++ rest) = literals rest := by
  rw [literals_append (after_quoteFree free), literals_quoteFree free, List.nil_append]

theorem literals_closed {quote : Char} (quoted : isQuote quote = true) {body : List Char}
    (isBody : IsBody quote body) :
    literals (quote :: (body ++ [quote]) ++ rest) =
      (quote :: (body ++ [quote])) :: literals rest := by
  rw [literals_append (isBody.after_literal quoted), literals_literal quoted isBody]
  rfl

end Front
end PullQuery.Text
