import PullQuery.Text.Character
import Mathlib.Data.List.TakeWhile

/-! Patterns of texts. A pattern may match in several ways in front of a text, and says which of them is
tried first: alternatives in their order, and as much as can be of what may be repeated or left out. The
first way that there is at the first place that has one is what a search finds. -/
namespace PullQuery.Text

inductive Pattern where
  | oneOf (words : List (List Char))
  | run (p : Char → Bool)
  | optional (inner : Pattern)
  | both (first second : Pattern)
  | group (inner : Pattern)
  /-- A place with a character of a word on one side only. -/
  | boundary

structure Match where
  taken : List Char
  rest : List Char
  groups : List (List Char)
  deriving DecidableEq, Repr

namespace Pattern

/-- The ways in which a pattern matches in front of a text, given the reversed text before it, in the
order in which they are tried. -/
def matchesAt (before : List Char) : Pattern → (cs : List Char) → List Match
  | oneOf words, cs =>
    (words.filter (·.isPrefixOf cs)).map fun word => ⟨word, cs.drop word.length, []⟩
  | run p, cs =>
    (List.range (cs.takeWhile p).length).reverse.map fun others =>
      ⟨cs.take (others + 1), cs.drop (others + 1), []⟩
  | optional inner, cs => inner.matchesAt before cs ++ [⟨[], cs, []⟩]
  | both first second, cs =>
    (first.matchesAt before cs).flatMap fun front =>
      (second.matchesAt (front.taken.reverse ++ before) front.rest).map fun back =>
        ⟨front.taken ++ back.taken, back.rest, front.groups ++ back.groups⟩
  | group inner, cs =>
    (inner.matchesAt before cs).map fun found => { found with groups := found.taken :: found.groups }
  | boundary, cs => if startsInWord before = startsInWord cs then [] else [⟨[], cs, []⟩]

section Members
variable {before cs : List Char} {found : Match}

theorem mem_oneOf {words : List (List Char)} :
    found ∈ (oneOf words).matchesAt before cs ↔
      found.taken ∈ words ∧ cs = found.taken ++ found.rest ∧ found.groups = [] := by
  obtain ⟨taken, rest, groups⟩ := found
  simp only [matchesAt, List.mem_map, List.mem_filter, List.isPrefixOf_iff_prefix, Match.mk.injEq]
  constructor
  · rintro ⟨word, ⟨member, more, rfl⟩, rfl, rfl, rfl⟩
    exact ⟨member, by simp, rfl⟩
  · rintro ⟨member, rfl, rfl⟩
    exact ⟨taken, ⟨member, rest, rfl⟩, rfl, by simp, rfl⟩

theorem mem_run {p : Char → Bool} :
    found ∈ (run p).matchesAt before cs ↔
      found.taken ≠ [] ∧ (∀ c ∈ found.taken, p c = true) ∧ cs = found.taken ++ found.rest ∧
        found.groups = [] := by
  obtain ⟨taken, rest, groups⟩ := found
  simp only [matchesAt, List.mem_map, List.mem_reverse, List.mem_range, Match.mk.injEq]
  constructor
  · rintro ⟨others, short, rfl, rfl, rfl⟩
    have split : cs = cs.takeWhile p ++ cs.dropWhile p := List.takeWhile_append_dropWhile.symm
    have front : cs.take (others + 1) = (cs.takeWhile p).take (others + 1) :=
      (congrArg (List.take _) split).trans (List.take_append_of_le_length (by omega))
    refine ⟨?_, fun c member => ?_, (List.take_append_drop _ _).symm, rfl⟩
    · rw [front]
      exact List.ne_nil_of_length_pos (by rw [List.length_take]; omega)
    · rw [front] at member
      exact List.mem_takeWhile_imp (List.mem_of_mem_take member)
  · rintro ⟨some, all, rfl, rfl⟩
    have positive := List.length_pos_iff.mpr some
    have whole : taken.length - 1 + 1 = taken.length := by omega
    refine ⟨taken.length - 1, ?_, by simp [whole], by simp [whole], rfl⟩
    rw [List.takeWhile_append_of_pos all, List.length_append]
    omega

theorem mem_optional {inner : Pattern} :
    found ∈ (optional inner).matchesAt before cs ↔
      found ∈ inner.matchesAt before cs ∨ found = ⟨[], cs, []⟩ := by
  simp [matchesAt]

theorem mem_both {first second : Pattern} :
    found ∈ (both first second).matchesAt before cs ↔
      ∃ front ∈ first.matchesAt before cs,
        ∃ back ∈ second.matchesAt (front.taken.reverse ++ before) front.rest,
          found = ⟨front.taken ++ back.taken, back.rest, front.groups ++ back.groups⟩ := by
  simp [matchesAt, eq_comm]

theorem mem_group {inner : Pattern} :
    found ∈ (group inner).matchesAt before cs ↔
      ∃ within ∈ inner.matchesAt before cs,
        found = { within with groups := within.taken :: within.groups } := by
  simp [matchesAt, eq_comm]

theorem mem_boundary :
    found ∈ boundary.matchesAt before cs ↔
      startsInWord before ≠ startsInWord cs ∧ found = ⟨[], cs, []⟩ := by
  rw [matchesAt]
  split <;> simp_all

end Members
end Pattern
end PullQuery.Text
