import PullQuery.Proofs.Query.Durations
import PullQuery.Proofs.Query.Written
import PullQuery.Proofs.Text.Places

/-! The durations of a text that become seconds, where they stand, and how the seconds are read. A
duration may be as long as a word at most, so what stands for it is read as an integer, behind a
minus where the number of seconds is negative. -/
namespace PullQuery.Query
open PullQuery.Number PullQuery.Text QuoteState Lexeme

structure Conversion where
  duration : Duration
  width : Nat
  seconds : Int

def conversionAt? (place : Place) : Option Conversion := do
  let (duration, width) ← Duration.scan? place.behind
  let seconds ← duration.seconds?
  if outside.after place.before.reverse = outside ∧ mayFollow place.before ∧
      startsWithQuote (place.behind.drop width) = false then
    some ⟨duration, width, seconds⟩
  else none

theorem conversionAt?_eq_some {place : Place} {conversion : Conversion} :
    conversionAt? place = some conversion ↔
      Duration.scan? place.behind = some (conversion.duration, conversion.width) ∧
        conversion.duration.seconds? = some conversion.seconds ∧
        outside.after place.before.reverse = outside ∧ mayFollow place.before = true ∧
        startsWithQuote (place.behind.drop conversion.width) = false := by
  obtain ⟨duration, width, seconds⟩ := conversion
  rw [conversionAt?]
  cases found : Duration.scan? place.behind with
  | none => simp
  | some front =>
    obtain ⟨d, w⟩ := front
    cases length : d.seconds? <;> simp <;> grind

theorem durationRule_converted {before after : List Char} {conversion : Conversion}
    (found : conversionAt? ⟨before, after⟩ = some conversion) :
    durationRule before after = some ⟨conversion.width, intDigits conversion.seconds⟩ := by
  obtain ⟨scanned, length, outer, follows, ends⟩ := conversionAt?_eq_some.mp found
  simp only at scanned outer follows ends
  simp [durationRule, scanned, outer, follows, ends, length]

theorem durationRule_left {before after : List Char} {d : Duration} {width : Nat}
    (scanned : Duration.scan? after = some (d, width))
    (stays : conversionAt? ⟨before, after⟩ = none) :
    durationRule before after = some ⟨width, after.take width⟩ := by
  simp only [durationRule, scanned, Option.bind_eq_bind, Option.bind_some]
  split
  · rename_i clear
    cases length : d.seconds? with
    | none => rfl
    | some seconds =>
      have found : conversionAt? ⟨before, after⟩ = some ⟨d, width, seconds⟩ :=
        conversionAt?_eq_some.mpr ⟨scanned, length, by simpa [and_assoc] using clear⟩
      simp [found] at stays
  · rfl

namespace Duration

private theorem magnitude?_lt {d : Duration} {magnitude : Nat}
    (length : d.magnitude? = some magnitude) : magnitude < 0x8000000000000000 := by
  unfold magnitude? at length
  split at length
  · simp only at length
    split at length
    · rename_i bound
      obtain rfl := Option.some.inj length
      exact bound.2
    · simp at length
  · rename_i fraction _
    have high := Int64.toInt_lt
      (nearestWord (decimalFloat d.whole fraction * Float.ofNat d.unit.seconds))
    split at length
    · obtain rfl := Option.some.inj length
      omega
    · simp at length

theorem exists_word {d : Duration} {seconds : Int} (length : d.seconds? = some seconds) :
    ∃ n : Int64, 0 ≤ n.toInt ∧ d.magnitude? = some n.toInt.toNat ∧
      seconds = if d.negative then -n.toInt else n.toInt := by
  obtain ⟨magnitude, size, rfl⟩ := Option.map_eq_some_iff.mp length
  have bound := magnitude?_lt size
  have value : (Int64.ofInt magnitude).toInt = magnitude :=
    Int64.toInt_ofInt_of_le (by omega) (by omega)
  exact ⟨Int64.ofInt magnitude, by omega, by rw [value, Int.toNat_natCast, size], by rw [value]⟩

def dropsSign (d : Duration) : Bool := d.negative && d.magnitude? == some 0

def tokens (d : Duration) (n : Int64) : List Token :=
  if d.negative then [.minus, .integer n] else [.integer n]

end Duration

theorem intDigits_nonnegative {n : Int} (nonnegative : 0 ≤ n) :
    intDigits n = natDigits n.toNat := by
  have positive : ¬ n < 0 := by omega
  have size : n.natAbs = n.toNat := by omega
  rw [intDigits, if_neg positive, size]

theorem intDigits_negative {n : Int} (positive : 0 < n) :
    intDigits (-n) = '-' :: natDigits n.toNat := by
  have negative : -n < 0 := by omega
  have size : (-n).natAbs = n.toNat := by omega
  rw [intDigits, if_pos negative, size]

/-- What stands for a duration is read as an integer, behind a minus if the duration has a sign and
is not of no seconds. -/
theorem Duration.lexes_intDigits {d : Duration} {seconds : Int}
    (length : d.seconds? = some seconds) {rest : List Char} {others : List Token}
    (stops : StopsRun Char.isDigit rest) (point : startsFraction rest = false)
    (lexes : Lexes rest others) :
    ∃ n : Int64, (0 ≤ n.toInt ∧ d.magnitude? = some n.toInt.toNat) ∧
      Lexes (intDigits seconds ++ rest)
        ((if d.dropsSign then [.integer n] else d.tokens n) ++ others) := by
  obtain ⟨n, nonnegative, size, rfl⟩ := exists_word length
  refine ⟨n, ⟨nonnegative, size⟩, ?_⟩
  have number := Lexes.token (fronts_natDigits nonnegative stops point) lexes
  cases sign : d.negative with
  | false => simpa [dropsSign, tokens, sign, intDigits_nonnegative nonnegative] using number
  | true =>
    by_cases zero : n.toInt = 0
    · have drops : d.dropsSign = true := by simp [dropsSign, sign, size, zero]
      rw [if_pos drops]
      simpa [zero, intDigits] using number
    · have positive : 0 < n.toInt := by omega
      have keeps : d.dropsSign = false := by
        have some : n.toInt.toNat ≠ 0 := by omega
        simp [dropsSign, size, some, -Int64.toNat_toInt]
      have minus : Lexes ('-' :: (natDigits n.toInt.toNat ++ rest)) (.minus :: .integer n :: others) :=
        lexes_symbol (fun _ => rfl) number
      simpa [keeps, tokens, sign, intDigits_negative positive] using minus

end PullQuery.Query
