import PullQuery.Time.Instant
import Mathlib.Algebra.GroupWithZero.Nat

/-! Every day has one date, and the days of that date are the day again. -/
namespace PullQuery.Time

private theorem daysBeforeYear_eq (cycle : Int) {century span year : Nat} (centuries : century ≤ 3)
    (spans : span ≤ 24) (years : year ≤ 3) :
    daysBeforeYear (400 * cycle + 100 * century + 4 * span + year + 1) =
      146097 * cycle + 36524 * century + 1461 * span + 365 * year := by
  unfold daysBeforeYear
  omega

/-- The cycle, century, leap span and year that a day is in. Only the last year of a span has a
last day more, unless the span is cut short by the end of a century. -/
theorem exists_splitYear (days : Int) : ∃ (cycle : Int) (century span year day : Nat),
    splitYear days = (400 * cycle + 100 * century + 4 * span + year + 1, day) ∧
      days = 146097 * cycle + 36524 * century + 1461 * span + 365 * year + day ∧
      (century ≤ 3 ∧ span ≤ 24 ∧ year ≤ 3) ∧
      (day < 365 ∨ day = 365 ∧ year = 3 ∧ (span < 24 ∨ century = 3)) := by
  -- Every quotient gets a name before the next one is taken of what it leaves.
  have cycles := Int.mul_ediv_add_emod days 146097
  obtain ⟨inCycle, first, bound⟩ : ∃ inCycle : Nat, days % 146097 = inCycle ∧ inCycle < 146097 :=
    ⟨(days % 146097).toNat, by omega⟩
  obtain ⟨century, inCentury, second, remains, centuries, inside⟩ : ∃ century inCentury,
      min 3 (inCycle / 36524) = century ∧ inCycle - century * 36524 = inCentury ∧
      inCycle = inCentury + 36524 * century ∧ century ≤ 3 ∧ inCentury ≤ 36524 ∧
      (century < 3 → inCentury < 36524) := ⟨_, _, rfl, rfl, by omega⟩
  obtain ⟨span, inSpan, third, left, spans⟩ : ∃ span inSpan,
      inCentury / 1461 = span ∧ inCentury - span * 1461 = inSpan ∧
      inCentury = inSpan + 1461 * span ∧ inSpan < 1461 := ⟨_, _, rfl, rfl, by omega⟩
  obtain ⟨year, day, fourth, last, years⟩ : ∃ year day,
      min 3 (inSpan / 365) = year ∧ inSpan - year * 365 = day ∧
      inSpan = day + 365 * year ∧ year ≤ 3 ∧ day ≤ 365 ∧ (year < 3 → day < 365) :=
    ⟨_, _, rfl, rfl, by omega⟩
  refine ⟨days / 146097, century, span, year, day, ?_, ?_⟩
  · simp only [splitYear, first, Int.toNat_natCast, second, remains, third, left, fourth, last]
  · clear second remains third left fourth last
    omega

private theorem splitYear_spec (days : Int) :
    daysBeforeYear (splitYear days).1 + (splitYear days).2 = days ∧
      (splitYear days).2 < 365 + if isLeapYear (splitYear days).1 then 1 else 0 := by
  obtain ⟨cycle, century, span, year, day, split, sum, ⟨centuries, spans, years⟩, within⟩ :=
    exists_splitYear days
  rw [split, daysBeforeYear_eq cycle centuries spans years]
  refine ⟨sum.symm, ?_⟩
  rcases within with short | ⟨rfl, rfl, long⟩
  · exact Nat.lt_add_right _ short
  · have leap : isLeapYear (400 * cycle + 100 * century + 4 * span + 3 + 1) = true := by
      simp only [isLeapYear, Bool.and_eq_true, Bool.or_eq_true, beq_iff_eq, bne_iff_ne]
      omega
    simp [leap]

theorem exists_splitMonth {lengths : List Nat} {day : Nat} (within : day < lengths.sum)
    (month : Nat) : ∃ passed length left,
      splitMonth lengths month day = (month + passed, left + 1) ∧
      lengths[passed]? = some length ∧ left < length ∧ (lengths.take passed).sum + left = day := by
  induction lengths generalizing day month with
  | nil => simp at within
  | cons first rest ih =>
    by_cases here : day < first
    · exact ⟨0, first, day, by simp [splitMonth, here], rfl, here, by simp⟩
    · rw [List.sum_cons] at within
      obtain ⟨passed, length, left, split, found, inside, sum⟩ :=
        ih (show day - first < rest.sum by omega) (month + 1)
      refine ⟨passed + 1, length, left, ?_, found, inside, ?_⟩
      · rw [splitMonth, if_neg here, split, Nat.add_assoc, Nat.add_comm 1]
      · rw [List.take_succ_cons, List.sum_cons]
        omega

private theorem sum_monthLengths (year : Int) :
    (monthLengths year).sum = 365 + if isLeapYear year then 1 else 0 := by
  unfold monthLengths
  split <;> rfl

namespace Date

/-- The date of a day has the year that the day is split into, and a day that its month has. -/
theorem exists_ofDays (days : Int) : ∃ year passed length day,
    ofDays days = ⟨year, 1 + passed, day + 1⟩ ∧ year = (splitYear (days + epochDays)).1 ∧
      (monthLengths year)[passed]? = some length ∧ day < length ∧
      daysBeforeYear year + ((monthLengths year).take passed).sum + day = days + epochDays := by
  obtain ⟨years, within⟩ := splitYear_spec (days + epochDays)
  rw [← sum_monthLengths] at within
  obtain ⟨passed, length, left, split, found, inside, sum⟩ := exists_splitMonth within 1
  refine ⟨_, passed, length, left, ?_, rfl, found, inside, ?_⟩
  · simp only [ofDays, split]
  · omega

theorem toDays_ofDays (days : Int) : (ofDays days).toDays = days := by
  obtain ⟨year, passed, length, day, date, -, -, -, sum⟩ := exists_ofDays days
  rw [date, toDays]
  simp only [Nat.add_sub_cancel_left, ← List.sum_eq_foldl]
  omega

private theorem year_ofDays {days : Int} (low : earliestSecond / 86400 ≤ days)
    (high : days ≤ latestSecond / 86400) :
    firstYear ≤ (ofDays days).year ∧ (ofDays days).year ≤ lastYear := by
  obtain ⟨year, passed, length, day, date, rfl, -⟩ := exists_ofDays days
  obtain ⟨cycle, century, span, year, day, split, sum, ⟨centuries, spans, years⟩, within⟩ :=
    exists_splitYear (days + epochDays)
  rw [date, split]
  simp only [firstYear, lastYear, earliestSecond, latestSecond, epochDays] at *
  omega

theorem isValid_ofDays {days : Int} (low : earliestSecond / 86400 ≤ days)
    (high : days ≤ latestSecond / 86400) : (ofDays days).isValid = true := by
  have years := year_ofDays low high
  obtain ⟨year, passed, length, day, date, -, found, inside, -⟩ := exists_ofDays days
  rw [date] at years ⊢
  simp [isValid, years, found]
  omega

theorem bounds_ofDays (days : Int) : (ofDays days).month ≤ 12 ∧ (ofDays days).day ≤ 31 := by
  obtain ⟨year, passed, length, day, date, -, found, inside, -⟩ := exists_ofDays days
  have months : passed < 12 := (List.getElem?_eq_some_iff.mp found).1
  have longest : ∀ length ∈ monthLengths year, length ≤ 31 := by
    unfold monthLengths
    split <;> decide
  have short := longest length (List.mem_of_getElem? found)
  rw [date]
  exact ⟨show 1 + passed ≤ 12 by omega, show day + 1 ≤ 31 by omega⟩

end Date

end PullQuery.Time
