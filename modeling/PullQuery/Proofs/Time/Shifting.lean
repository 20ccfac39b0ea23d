import PullQuery.Proofs.Time.Order
import Mathlib

/-! Instants some seconds away from one. Where the calendar has two of them they are in the order of the
seconds, also around a leap second. -/
namespace PullQuery.Time.Instant

private theorem key_of_make? {seconds : Int} {nanos : Nat} {t : Instant}
    (made : make? seconds nanos = some t) :
    t.key = toLex (seconds, nanos) := by
  unfold make? at made
  split at made
  · obtain rfl := Option.some.inj made
    rfl
  · simp at made

/-- What the instant some seconds away is ordered by. Inside a leap second only the instant itself keeps
the nanoseconds beyond the second: on the way back the seconds are counted from the one behind it. -/
def reach (t : Instant) (seconds : Int) : Lex (Int × Nat) :=
  if t.nanos < 1000000000 then toLex (t.seconds + seconds, t.nanos)
  else if 0 < seconds then toLex (t.seconds + seconds, t.nanos - 1000000000)
  else if seconds < 0 then toLex (t.seconds + 1 + seconds, t.nanos - 1000000000)
  else toLex (t.seconds, t.nanos)

private theorem carry?_eq_make? (seconds : Int) {nanos : Nat} (ordinary : nanos < 1000000000) :
    carry? seconds nanos = make? seconds nanos := by
  rw [carry?, if_neg (by omega), if_neg (by omega), Int.toNat_natCast]

theorem key_addSeconds? {t u : Instant} {seconds : Int} (found : t.addSeconds? seconds = some u) :
    u.key = t.reach seconds := by
  unfold addSeconds? shift? at found
  simp only [Int.add_zero] at found
  unfold reach
  by_cases ordinary : t.nanos < 1000000000
  · rw [if_pos ordinary] at found ⊢
    rw [carry?_eq_make? _ ordinary] at found
    exact key_of_make? found
  · have leap : (t.nanos : Int) - 1000000000 = (t.nanos - 1000000000 : Nat) := by omega
    have short := t.nanos_lt
    rw [if_neg ordinary] at found ⊢
    rw [leap, carry?_eq_make? _ (by omega), carry?_eq_make? _ (by omega)] at found
    rcases lt_trichotomy seconds 0 with back | rfl | forward
    · rw [if_neg (by omega), if_pos back] at found
      rw [if_neg (by omega), if_pos back]
      exact key_of_make? found
    · simp only [lt_irrefl, false_and, or_false, if_false] at found ⊢
      exact key_of_make? found
    · rw [if_pos (.inl forward)] at found
      rw [if_pos forward]
      exact key_of_make? found

theorem reach_strictMono (t : Instant) : StrictMono t.reach := by
  intro a b before
  have short := t.nanos_lt
  unfold reach
  split_ifs <;> rw [Prod.Lex.toLex_lt_toLex] <;> simp only [] <;> omega

section Ordered
variable {t u v : Instant} {a b : Int} (first : t.addSeconds? a = some u)
  (second : t.addSeconds? b = some v)
include first second

theorem addSeconds?_lt_iff : u < v ↔ a < b := by
  rw [lt_iff_key, key_addSeconds? first, key_addSeconds? second, t.reach_strictMono.lt_iff_lt]

theorem addSeconds?_le_iff : u ≤ v ↔ a ≤ b := by
  rw [le_iff_key, key_addSeconds? first, key_addSeconds? second, t.reach_strictMono.le_iff_le]

end Ordered
end PullQuery.Time.Instant
