import PullQuery.Time.Calendar

/-! Instants of universal time to the nanosecond, with leap seconds: their order and their
distance in seconds. -/
namespace PullQuery.Time

/-- The first second of the first year, counted from the start of 1970. -/
def earliestSecond : Int := -8334601228800

def latestSecond : Int := 8210266876799

/-- Seconds since the start of 1970 and nanoseconds in the second. A leap second is the second
before it with more than a second's nanoseconds, so it can only follow the last of a minute. -/
structure Instant where
  seconds : Int
  nanos : Nat
  inCalendar : earliestSecond ≤ seconds ∧ seconds ≤ latestSecond
  nanos_lt : nanos < 2000000000
  endsMinute : 1000000000 ≤ nanos → seconds % 60 = 59
  deriving DecidableEq

namespace Instant

def make? (seconds : Int) (nanos : Nat) : Option Instant :=
  if h : (earliestSecond ≤ seconds ∧ seconds ≤ latestSecond) ∧ nanos < 2000000000 ∧
      (1000000000 ≤ nanos → seconds % 60 = 59) then
    some ⟨seconds, nanos, h.1, h.2.1, h.2.2⟩
  else none

def epoch : Instant := ⟨0, 0, by decide, by decide, by decide⟩

instance : Inhabited Instant := ⟨epoch⟩

instance : LT Instant where
  lt a b := a.seconds < b.seconds ∨ (a.seconds = b.seconds ∧ a.nanos < b.nanos)

instance : LE Instant where
  le a b := a.seconds < b.seconds ∨ (a.seconds = b.seconds ∧ a.nanos ≤ b.nanos)

instance (a b : Instant) : Decidable (a < b) :=
  inferInstanceAs (Decidable (a.seconds < b.seconds ∨ (a.seconds = b.seconds ∧ a.nanos < b.nanos)))

instance (a b : Instant) : Decidable (a ≤ b) :=
  inferInstanceAs (Decidable (a.seconds < b.seconds ∨ (a.seconds = b.seconds ∧ a.nanos ≤ b.nanos)))

def latest? : List Instant → Option Instant
  | [] => none
  | t :: rest => some (rest.foldl (fun a b => if a < b then b else a) t)

def earliest? : List Instant → Option Instant
  | [] => none
  | t :: rest => some (rest.foldl (fun a b => if b < a then b else a) t)

/-- The instant with nanoseconds that may be off by a second in either direction. -/
def carry? (seconds nanos : Int) : Option Instant :=
  if nanos < 0 then make? (seconds - 1) (nanos + 1000000000).toNat
  else if 1000000000 ≤ nanos then make? (seconds + 1) (nanos - 1000000000).toNat
  else make? seconds nanos.toNat

/-- The instant so many seconds and nanoseconds of the same sign away. From inside a leap second
a way forward starts at the second before it, a way back at the second after it, and less than a
second that does not leave it stays inside. None if the result leaves the calendar. -/
def shift? (t : Instant) (seconds nanos : Int) : Option Instant :=
  if t.nanos < 1000000000 then carry? (t.seconds + seconds) (t.nanos + nanos)
  else if 0 < seconds ∨ (0 < nanos ∧ 2000000000 ≤ t.nanos + nanos) then
    carry? (t.seconds + seconds) (t.nanos - 1000000000 + nanos)
  else if seconds < 0 then
    carry? (t.seconds + 1 + seconds) (t.nanos - 1000000000 + nanos)
  else make? t.seconds (t.nanos + nanos).toNat

def addSeconds? (t : Instant) (seconds : Int) : Option Instant := t.shift? seconds 0

def addMillis? (t : Instant) (millis : Int) : Option Instant :=
  t.shift? (millis.tdiv 1000) (millis.tmod 1000 * 1000000)

end Instant

example : (Date.mk firstYear 1 1).toDays * 86400 = earliestSecond := by decide
example : (Date.mk lastYear 12 31).toDays * 86400 + 86399 = latestSecond := by decide

end PullQuery.Time
