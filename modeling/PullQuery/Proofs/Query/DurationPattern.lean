import PullQuery.Proofs.Query.WrittenDurations
import PullQuery.Proofs.Text.Patterns

/-! Durations as a search with a pattern finds them. The pattern matches in front of a text in one way at
most, and that way is the duration that is read there, so that no spelling of a unit is taken for a shorter
one and no part of a number for the whole, whatever the order in which the ways are tried. -/
namespace PullQuery.Query
open PullQuery.Number PullQuery.Text Pattern

def signPattern : Pattern := group (optional (oneOf [['-']]))

def amountPattern : Pattern :=
  group (both (run isDecimal) (optional (both (oneOf [['.']]) (run isDecimal))))

def unitPattern : Pattern := both (group (oneOf (TimeUnit.spellings.map (·.1)))) boundary

def durationPattern : Pattern := both signPattern (both amountPattern unitPattern)

theorem exists_unit_iff {word : List Char} :
    word ∈ TimeUnit.spellings.map (·.1) ↔ ∃ unit, TimeUnit.ofSpelling? word = some unit := by
  constructor
  · intro member
    obtain ⟨spelling, listed, rfl⟩ := List.mem_map.mp member
    cases found : TimeUnit.spellings.find? fun other => other.1 == spelling.1 with
    | none => simpa using List.find?_eq_none.mp found spelling listed
    | some other => exact ⟨other.2, by simp [TimeUnit.ofSpelling?, found]⟩
  · rintro ⟨unit, spelled⟩
    exact List.mem_map_of_mem (mem_spellings spelled)

section Members
variable {before cs taken rest : List Char} {groups : List (List Char)}

private theorem mem_signPattern :
    ⟨taken, rest, groups⟩ ∈ signPattern.matchesAt before cs ↔
      (taken = ['-'] ∨ taken = []) ∧ cs = taken ++ rest ∧ groups = [taken] := by
  simp only [signPattern, mem_group, mem_optional, mem_oneOf, List.mem_singleton]
  constructor
  · rintro ⟨inner, ⟨sign, split, none⟩ | rfl, same⟩
    · obtain ⟨rfl, rfl, rfl⟩ := Match.mk.inj same
      exact ⟨.inl sign, split, by rw [none]⟩
    · obtain ⟨rfl, rfl, rfl⟩ := Match.mk.inj same
      exact ⟨.inr rfl, rfl, rfl⟩
  · rintro ⟨sign | rfl, split, rfl⟩
    · exact ⟨⟨taken, rest, []⟩, .inl ⟨sign, split, rfl⟩, rfl⟩
    · exact ⟨⟨[], rest, []⟩, .inr (by rw [split]; rfl), rfl⟩

private theorem mem_amountPattern :
    ⟨taken, rest, groups⟩ ∈ amountPattern.matchesAt before cs ↔
      ∃ (whole : List Char) (fraction : Option (List Char)),
        whole ≠ [] ∧ (∀ c ∈ whole, isDecimal c = true) ∧
        (∀ digits ∈ fraction, digits ≠ [] ∧ ∀ c ∈ digits, isDecimal c = true) ∧
        taken = whole ++ fraction.elim [] ('.' :: ·) ∧ cs = taken ++ rest ∧ groups = [taken] := by
  simp only [amountPattern, mem_group, mem_both, mem_optional, mem_oneOf, mem_run, List.mem_singleton]
  constructor
  · rintro ⟨-, ⟨⟨whole, behind, -⟩, ⟨some, all, rfl, rfl⟩, tail, fraction | rfl, rfl⟩, same⟩
    · obtain ⟨⟨point, rest, -⟩, ⟨rfl, rfl, rfl⟩, ⟨digits, left, -⟩, ⟨more, decimals, rfl, rfl⟩, rfl⟩ :=
        fraction
      obtain ⟨rfl, rfl, rfl⟩ := Match.mk.inj same
      exact ⟨whole, .some digits, some, all, by simpa using ⟨more, decimals⟩, rfl, by simp, rfl⟩
    · obtain ⟨rfl, rfl, rfl⟩ := Match.mk.inj same
      exact ⟨whole, none, some, all, by simp, rfl, by simp, rfl⟩
  · rintro ⟨whole, fraction, some, all, decimals, rfl, rfl, rfl⟩
    cases fraction with
    | none =>
      exact ⟨_, ⟨⟨whole, rest, []⟩, ⟨some, all, by simp, rfl⟩, ⟨[], rest, []⟩, .inr rfl, rfl⟩, rfl⟩
    | some digits =>
      obtain ⟨more, decimals⟩ := decimals digits rfl
      refine ⟨_, ⟨⟨whole, '.' :: (digits ++ rest), []⟩, ⟨some, all, by simp, rfl⟩,
        ⟨'.' :: digits, rest, []⟩, .inl ?_, rfl⟩, rfl⟩
      exact ⟨⟨['.'], digits ++ rest, []⟩, ⟨rfl, rfl, rfl⟩, ⟨digits, rest, []⟩,
        ⟨more, decimals, rfl, rfl⟩, rfl⟩

private theorem startsInWord_unit {unit : TimeUnit}
    (spelled : TimeUnit.ofSpelling? taken = some unit)
    (before : List Char) : startsInWord (taken.reverse ++ before) = true := by
  cases reversed : taken.reverse with
  | nil => exact absurd (List.reverse_eq_nil_iff.mp reversed) (ne_nil_of_unit spelled)
  | cons c word =>
    have member : c ∈ taken := List.mem_reverse.mp (by simp [reversed])
    exact isWordChar_of_isAlphabetic (letters_of_unit spelled c member)

private theorem startsInWord_eq_false : startsInWord rest = false ↔ StopsRun isWordChar rest := by
  cases rest <;> simp [startsInWord, StopsRun]

private theorem mem_unitPattern :
    ⟨taken, rest, groups⟩ ∈ unitPattern.matchesAt before cs ↔
      (∃ unit, TimeUnit.ofSpelling? taken = some unit) ∧ StopsRun isWordChar rest ∧
        cs = taken ++ rest ∧ groups = [taken] := by
  simp only [unitPattern, mem_both, mem_group, mem_oneOf, mem_boundary, exists_unit_iff]
  constructor
  · rintro ⟨-, ⟨⟨word, left, -⟩, ⟨⟨unit, spelled⟩, rfl, rfl⟩, rfl⟩, -, ⟨ends, rfl⟩, same⟩
    rw [startsInWord_unit spelled] at ends
    obtain ⟨rfl, rfl, rfl⟩ := Match.mk.inj same
    have stops := startsInWord_eq_false.mp (Bool.eq_false_iff.mpr ends.symm)
    simpa using ⟨⟨unit, spelled⟩, stops⟩
  · rintro ⟨⟨unit, spelled⟩, ends, rfl, rfl⟩
    refine ⟨⟨taken, rest, [taken]⟩, ⟨⟨taken, rest, []⟩, ⟨⟨unit, spelled⟩, rfl, rfl⟩, rfl⟩,
      ⟨[], rest, []⟩, ⟨?_, rfl⟩, by simp⟩
    rw [startsInWord_unit spelled, startsInWord_eq_false.mpr ends]
    simp

end Members

theorem mem_durationPattern {before cs : List Char} {found : Match} :
    found ∈ durationPattern.matchesAt before cs ↔
      ∃ (d : Duration) (word rest : List Char), d.IsWritten word ∧ StopsRun isWordChar rest ∧
        cs = d.written word ++ rest ∧ found = ⟨d.written word, rest, [d.sign, d.amount, word]⟩ := by
  simp only [durationPattern, mem_both]
  constructor
  · rintro ⟨⟨sign, left, groups⟩, signed, -, ⟨⟨amount, behind, more⟩, number, ⟨word, rest, last⟩,
      named, rfl⟩, rfl⟩
    obtain ⟨sign, rfl, rfl⟩ := mem_signPattern.mp signed
    obtain ⟨whole, fraction, some, all, decimals, rfl, rfl, rfl⟩ := mem_amountPattern.mp number
    obtain ⟨⟨unit, spelled⟩, ends, rfl, rfl⟩ := mem_unitPattern.mp named
    have isWritten (negative : Bool) : (⟨negative, whole, fraction, unit⟩ : Duration).IsWritten word :=
      ⟨some, all, decimals, spelled⟩
    rcases sign with rfl | rfl
    · refine ⟨_, word, rest, isWritten true, ends, ?_, rfl⟩
      simp [Duration.written, Duration.sign, Duration.amount]
    · refine ⟨_, word, rest, isWritten false, ends, ?_, rfl⟩
      simp [Duration.written, Duration.sign, Duration.amount]
  · rintro ⟨d, word, rest, isWritten, ends, rfl, rfl⟩
    have sign : d.sign = ['-'] ∨ d.sign = [] := by
      unfold Duration.sign
      split <;> simp
    exact ⟨_, mem_signPattern.mpr ⟨sign, by rw [Duration.written, List.append_assoc], rfl⟩, _,
      ⟨⟨d.amount, _, _⟩, mem_amountPattern.mpr ⟨d.whole, d.fraction, isWritten.some, isWritten.whole,
        isWritten.fraction, rfl, List.append_assoc .., rfl⟩, _,
        mem_unitPattern.mpr ⟨⟨d.unit, isWritten.unit⟩, ends, rfl, rfl⟩, rfl⟩, rfl⟩

theorem Duration.IsWritten.unique {d e : Duration} {word other rest left : List Char}
    (isWritten : d.IsWritten word) (again : e.IsWritten other) (ends : StopsRun isWordChar rest)
    (stops : StopsRun isWordChar left) (same : d.written word ++ rest = e.written other ++ left) :
    d = e ∧ word = other ∧ rest = left := by
  have found := isWritten.scan? ends
  rw [same, again.scan? stops] at found
  obtain ⟨rfl, size⟩ := Prod.mk.inj (Option.some.inj found)
  obtain ⟨written, rfl⟩ := List.append_inj same size.symm
  simp only [Duration.written, List.append_cancel_left_eq] at written
  exact ⟨rfl, written, rfl⟩

/-- A search finds the duration that is written in front of a text. -/
theorem head?_durationPattern {d : Duration} {word rest : List Char} (isWritten : d.IsWritten word)
    (ends : StopsRun isWordChar rest) (before : List Char) :
    (durationPattern.matchesAt before (d.written word ++ rest)).head? =
      some ⟨d.written word, rest, [d.sign, d.amount, word]⟩ := by
  have member : _ ∈ durationPattern.matchesAt before (d.written word ++ rest) :=
    mem_durationPattern.mpr ⟨d, word, rest, isWritten, ends, rfl, rfl⟩
  cases first : (durationPattern.matchesAt before (d.written word ++ rest)).head? with
  | none => simp [List.head?_eq_none_iff.mp first] at member
  | some found =>
    obtain ⟨e, other, left, again, stops, same, rfl⟩ :=
      mem_durationPattern.mp (List.mem_of_mem_head? first)
    obtain ⟨rfl, rfl, rfl⟩ := isWritten.unique again ends stops same
    rfl

theorem head?_durationPattern_none {cs : List Char} (none : Duration.scan? cs = none)
    (before : List Char) : (durationPattern.matchesAt before cs).head? = .none := by
  rw [List.head?_eq_none_iff, List.eq_nil_iff_forall_not_mem]
  intro found member
  obtain ⟨d, word, rest, isWritten, ends, rfl, -⟩ := mem_durationPattern.mp member
  simp [isWritten.scan? ends] at none

end PullQuery.Query
