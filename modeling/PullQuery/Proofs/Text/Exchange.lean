import PullQuery.Proofs.Text.Layout

/-! Putting a literal into a text. Behind terminated literals the rest is scanned as if a text began there,
so a literal that takes the place of another one, or of a piece between them, leaves all others as they
are but for the distance that they move. -/
namespace PullQuery.Text
open QuoteState

private theorem closes_escapeQuoted (cs : List Char) : Closes '"' (escapeQuoted cs ++ ['"']) := by
  induction cs with
  | nil => exact .quote
  | cons c cs ih =>
    rw [escapeQuoted]
    split
    · exact .escaped c ih
    · rename_i special
      obtain ⟨notQuote, notEscape⟩ : c ≠ '"' ∧ c ≠ '\\' := by simpa using special
      exact .plain notQuote notEscape ih

private theorem isTerminated_asLiteral (cs : List Char) : IsTerminated (asLiteral cs) :=
  ⟨'"', _, rfl, rfl, closes_escapeQuoted cs⟩

theorem literalSpans_asLiteral_append (cs rest : List Char) :
    literalSpans (asLiteral cs ++ rest) =
      ⟨0, (asLiteral cs).length⟩ :: (literalSpans rest).map (Span.shift (asLiteral cs).length) := by
  obtain ⟨quote, body, quoted, same, isBody⟩ := isTerminated_iff.mp (isTerminated_asLiteral cs)
  rw [same]
  exact literalSpans_closed quoted isBody

def Span.moved (old new : Nat) (span : Span) : Span :=
  ⟨new + (span.start - old), new + (span.stop - old)⟩

theorem Span.shift_comp_shift (first second : Nat) :
    shift first ∘ shift second = shift (first + second) := by
  funext span
  simp [shift, Nat.add_assoc]

private theorem Span.moved_comp_shift (old new : Nat) : moved old new ∘ shift old = shift new := by
  funext span
  simp [moved, shift]

/-- The spans of a text after a literal of the given width has taken the place of a piece: those in front
of it stay, and those behind it move along. -/
def Span.replaced (piece : Span) (width : Nat) (spans : List Span) : List Span :=
  spans.filter (fun span => span.stop ≤ piece.start) ++
    ⟨piece.start, piece.start + width⟩ ::
      (spans.filter fun span => piece.stop ≤ span.start).map
        (moved piece.stop (piece.start + width))

theorem Span.replaced_append {piece : Span} {front inner behind : List Span}
    (stays : ∀ span ∈ front, span.stop ≤ piece.start ∧ span.start < piece.stop)
    (goes : ∀ span ∈ inner, piece.start < span.stop ∧ span.start < piece.stop)
    (moves : ∀ span ∈ behind, piece.start < span.stop ∧ piece.stop ≤ span.start) (width : Nat) :
    piece.replaced width (front ++ (inner ++ behind)) =
      front ++ ⟨piece.start, piece.start + width⟩ ::
        behind.map (moved piece.stop (piece.start + width)) := by
  have inFront : (front ++ (inner ++ behind)).filter (fun span => span.stop ≤ piece.start) = front := by
    rw [List.filter_append, List.filter_append,
      List.filter_eq_self.mpr fun span member => decide_eq_true (stays span member).1,
      List.filter_eq_nil_iff.mpr fun span member => by simpa using (goes span member).1,
      List.filter_eq_nil_iff.mpr fun span member => by simpa using (moves span member).1,
      List.append_nil, List.append_nil]
  have later : (front ++ (inner ++ behind)).filter (fun span => piece.stop ≤ span.start) = behind := by
    rw [List.filter_append, List.filter_append,
      List.filter_eq_nil_iff.mpr fun span member => by simpa using (stays span member).2,
      List.filter_eq_nil_iff.mpr fun span member => by simpa using (goes span member).2,
      List.filter_eq_self.mpr fun span member => decide_eq_true (moves span member).2,
      List.nil_append, List.nil_append]
  rw [replaced, inFront, later]

/-- A part of a text that can be cut out of it for a literal to take its place. -/
structure IsCut (cs front source behind : List Char) : Prop where
  split : cs = front ++ (source ++ behind)
  opens : outside.after front = outside
  closes : outside.after source = outside ∨ behind = []

namespace IsCut
variable {cs front source behind : List Char}

private theorem extend (cut : IsCut cs front source behind) {before : List Char}
    (outer : outside.after before = outside) : IsCut (before ++ cs) (before ++ front) source behind := by
  refine ⟨by rw [cut.split, List.append_assoc], ?_, cut.closes⟩
  rw [after_append, outer, cut.opens]

private theorem literalSpans_eq (cut : IsCut cs front source behind) :
    literalSpans cs =
      literalSpans front ++ ((literalSpans source).map (Span.shift front.length) ++
        (literalSpans behind).map (Span.shift (front.length + source.length))) := by
  obtain ⟨rfl, opens, closes⟩ := cut
  have both : literalSpans (source ++ behind) =
      literalSpans source ++ (literalSpans behind).map (Span.shift source.length) := by
    rcases closes with closes | rfl
    · exact literalSpans_append closes behind
    · simp [show literalSpans [] = [] from rfl]
  rw [literalSpans_append opens, both, List.map_append, List.map_map, Span.shift_comp_shift]

/-- With a literal in place of the part its spans are replaced. -/
theorem literalSpans_replaced (cut : IsCut cs front source behind) (value : List Char) :
    literalSpans (front ++ (asLiteral value ++ behind)) =
      Span.replaced ⟨front.length, front.length + source.length⟩ (asLiteral value).length
        (literalSpans cs) := by
  rw [literalSpans_append cut.opens, literalSpans_asLiteral_append, cut.literalSpans_eq,
    Span.replaced_append]
  · rw [List.map_map, Span.moved_comp_shift, List.map_cons, List.map_map, Span.shift_comp_shift]
    rfl
  · intro span listed
    have bounds := (isLayout_literalSpans front).within span listed
    simp only
    omega
  · intro span listed
    obtain ⟨span, inner, rfl⟩ := List.mem_map.mp listed
    have bounds := (isLayout_literalSpans source).within span inner
    simp only [Span.shift]
    omega
  · intro span listed
    obtain ⟨span, inner, rfl⟩ := List.mem_map.mp listed
    have bounds := (isLayout_literalSpans behind).within span inner
    simp only [Span.shift]
    omega

end IsCut

private theorem exists_cut_of_literal {cs : List Char} {piece : Span}
    (listed : piece ∈ literalSpans cs) :
    ∃ front source behind, IsCut cs front source behind ∧
      piece = ⟨front.length, front.length + source.length⟩ := by
  induction cs using literal_induction generalizing piece with
  | nil => simp [literalSpans, spansFrom] at listed
  | plain c rest plain ih =>
    rw [literalSpans_plain plain] at listed
    obtain ⟨span, inner, rfl⟩ := List.mem_map.mp listed
    obtain ⟨front, source, behind, cut, rfl⟩ := ih inner
    have outer : outside.after [c] = outside := next_plain plain
    refine ⟨_, source, behind, cut.extend outer, ?_⟩
    rw [List.length_append, Nat.add_assoc]
    rfl
  | closed quote body rest quoted isBody ih =>
    have outer := isBody.after_literal quoted
    rw [literalSpans_closed quoted isBody] at listed
    rcases List.mem_cons.mp listed with rfl | later
    · exact ⟨[], _, rest, ⟨rfl, rfl, .inl outer⟩, by simp⟩
    · obtain ⟨span, inner, rfl⟩ := List.mem_map.mp later
      obtain ⟨front, source, behind, cut, rfl⟩ := ih inner
      refine ⟨_, source, behind, cut.extend outer, ?_⟩
      rw [List.length_append, Nat.add_assoc]
      rfl
  | leftOpen quote rest quoted leavesOpen =>
    rw [literalSpans_open quoted leavesOpen] at listed
    obtain rfl := List.mem_singleton.mp listed
    exact ⟨[], quote :: rest, [], ⟨by simp, rfl, .inr rfl⟩, by simp⟩

theorem Span.drop_eq_part_append {piece : Span} (ordered : piece.start ≤ piece.stop) (cs : List Char) :
    cs.drop piece.start = piece.part cs ++ cs.drop piece.stop := by
  have behind := List.take_append_drop (piece.stop - piece.start) (cs.drop piece.start)
  rw [List.drop_drop, Nat.add_sub_cancel' ordered] at behind
  exact behind.symm

theorem Span.length_part {cs : List Char} {piece : Span} (within : piece.stop ≤ cs.length) :
    (piece.part cs).length = piece.stop - piece.start := by
  rw [part, List.length_take, List.length_drop]
  omega

/-- A piece of a text that no literal shares a character with. An empty piece at the end of the text stands
between the literals, and not in one that goes on, only if all of them are terminated. -/
structure IsBetween (cs : List Char) (piece : Span) : Prop where
  ordered : piece.start ≤ piece.stop
  within : piece.stop ≤ cs.length
  apart : ∀ span ∈ literalSpans cs, span.stop ≤ piece.start ∨ piece.stop ≤ span.start
  terminated : piece.start = cs.length → ∀ literal ∈ literals cs, IsTerminated literal

namespace IsBetween
variable {cs : List Char} {piece : Span}

private theorem quoteFree (between : IsBetween cs piece) :
    ∀ c ∈ piece.part cs, isQuote c = false := by
  intro c member
  obtain ⟨k, bound, rfl⟩ := List.mem_iff_getElem.mp member
  have found : cs[piece.start + k]? = some (piece.part cs)[k] := by
    rw [← List.getElem?_drop, Span.drop_eq_part_append between.ordered,
      List.getElem?_append_left bound, List.getElem?_eq_getElem bound]
  rw [Span.length_part between.within] at bound
  refine (isLayout_literalSpans cs).between _ _ found fun span listed => ?_
  have passed := between.apart span listed
  simp [Span.holds]
  omega

theorem after_take (between : IsBetween cs piece) :
    outside.after (cs.take piece.start) = outside := by
  have ordered := between.ordered
  have within := between.within
  by_cases ends : piece.start = cs.length
  · rw [ends, List.take_length]
    exact terminated_iff.mp (between.terminated ends)
  · -- A literal open there would hold the next character, and with it a part of the piece or its place.
    have inside : piece.start < cs.length := by omega
    refine Decidable.byContradiction fun inner => ?_
    obtain ⟨span, found, earlier⟩ :=
      find?_literalSpans_inner inner cs[piece.start] (cs.drop (piece.start + 1))
    rw [← List.drop_eq_getElem_cons inside, List.take_append_drop] at found
    have holds := List.find?_some found
    have passed := between.apart span (List.mem_of_find?_eq_some found)
    simp [Span.holds] at holds earlier
    omega

private theorem isCut (between : IsBetween cs piece) :
    IsCut cs (cs.take piece.start) (piece.part cs) (cs.drop piece.stop) where
  split := by rw [← Span.drop_eq_part_append between.ordered, List.take_append_drop]
  opens := between.after_take
  closes := .inl (after_quoteFree between.quoteFree)

end IsBetween

section Exchange
variable {cs : List Char} {piece : Span}

private theorem exists_cut (separate : piece ∈ literalSpans cs ∨ IsBetween cs piece) :
    ∃ front source behind, IsCut cs front source behind ∧
      piece = ⟨front.length, front.length + source.length⟩ := by
  rcases separate with listed | between
  · exact exists_cut_of_literal listed
  · have ordered := between.ordered
    have within := between.within
    refine ⟨_, _, _, between.isCut, ?_⟩
    rw [Span.length_part within, List.length_take, Nat.min_eq_left (Nat.le_trans ordered within),
      Nat.add_sub_cancel' ordered]

theorem others_apart (separate : piece ∈ literalSpans cs ∨ IsBetween cs piece) :
    ∀ span ∈ literalSpans cs, span = piece ∨ span.stop ≤ piece.start ∨ piece.stop ≤ span.start := by
  intro span other
  rcases separate with listed | between
  · exact (isLayout_literalSpans cs).eq_or_apart other listed
  · exact .inr (between.apart span other)

private theorem literalSpans_exchange (separate : piece ∈ literalSpans cs ∨ IsBetween cs piece)
    (value : List Char) :
    literalSpans (cs.take piece.start ++ (asLiteral value ++ cs.drop piece.stop)) =
      piece.replaced (asLiteral value).length (literalSpans cs) := by
  obtain ⟨front, source, behind, cut, rfl⟩ := exists_cut separate
  have before : cs.take front.length = front := by
    rw [cut.split, List.take_left]
  have rest : cs.drop (front.length + source.length) = behind := by
    rw [cut.split, ← List.drop_drop, List.drop_left, List.drop_left]
  simp only [before, rest]
  exact cut.literalSpans_replaced value

end Exchange

/-- The literals of a text lie apart from each other in their order, and take its quotes. Behind a text
whose literals are terminated they are those of the rest, moved by its length. A literal put in place of
one of them, or of a piece between them, leaves the others as they are. -/
theorem literal_spans_compose :
    (∀ cs, IsLayout cs (literalSpans cs)) ∧
      (∀ cs rest, (∀ literal ∈ literals cs, IsTerminated literal) →
        literalSpans (cs ++ rest) =
          literalSpans cs ++ (literalSpans rest).map (Span.shift cs.length)) ∧
      ∀ cs piece, piece ∈ literalSpans cs ∨ IsBetween cs piece →
        (∀ span ∈ literalSpans cs,
          span = piece ∨ span.stop ≤ piece.start ∨ piece.stop ≤ span.start) ∧
        ∀ value, literalSpans (cs.take piece.start ++ (asLiteral value ++ cs.drop piece.stop)) =
          piece.replaced (asLiteral value).length (literalSpans cs) :=
  ⟨isLayout_literalSpans,
    fun _ rest terminated => literalSpans_append (terminated_iff.mp terminated) rest,
    fun _ _ separate => ⟨others_apart separate, literalSpans_exchange separate⟩⟩

theorem literal_spans_compose_open :
    let cs := "é ~ \"a\\\"b\" @me 'c\\'".toList
    let value := "\"x".toList
    ((∀ literal ∈ literals "'ß\\'' = ".toList, IsTerminated literal) ∧
        ⟨4, 10⟩ ∈ literalSpans cs ∧ IsBetween cs ⟨11, 14⟩) ∧
      IsLayout cs [⟨4, 10⟩, ⟨15, 19⟩] ∧
      literalSpans ("'ß\\'' = ".toList ++ cs) = [⟨0, 5⟩, ⟨12, 18⟩, ⟨23, 27⟩] ∧
      literalSpans (cs.take 4 ++ (asLiteral value ++ cs.drop 10)) = [⟨4, 9⟩, ⟨14, 18⟩] ∧
      literalSpans (cs.take 11 ++ (asLiteral value ++ cs.drop 14)) = [⟨4, 10⟩, ⟨11, 16⟩, ⟨17, 21⟩] := by
  intro cs value
  obtain ⟨layout, behind, exchange⟩ := literal_spans_compose
  have spans : literalSpans cs = [⟨4, 10⟩, ⟨15, 19⟩] := by decide +kernel
  have terminated : ∀ literal ∈ literals "'ß\\'' = ".toList, IsTerminated literal :=
    terminated_iff.mpr (by decide +kernel)
  have listed : ⟨4, 10⟩ ∈ literalSpans cs := by simp [spans]
  have between : IsBetween cs ⟨11, 14⟩ :=
    ⟨by decide, by decide +kernel, by simp [spans], fun ends => absurd ends (by decide +kernel)⟩
  refine ⟨⟨terminated, listed, between⟩, spans ▸ layout cs, ?_, ?_, ?_⟩
  · exact (behind _ cs terminated).trans (by decide +kernel)
  · exact ((exchange cs _ (.inl listed)).2 value).trans (by decide +kernel)
  · exact ((exchange cs _ (.inr between)).2 value).trans (by decide +kernel)

end PullQuery.Text
