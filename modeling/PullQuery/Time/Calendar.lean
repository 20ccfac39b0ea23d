/-! The Gregorian calendar before and after its introduction: dates and the days since the
first of January 1970. -/
namespace PullQuery.Time

structure Date where
  year : Int
  month : Nat
  day : Nat
  deriving DecidableEq, Repr

def isLeapYear (year : Int) : Bool := year % 4 == 0 && (year % 100 != 0 || year % 400 == 0)

def monthLengths (year : Int) : List Nat :=
  [31, if isLeapYear year then 29 else 28, 31, 30, 31, 30, 31, 31, 30, 31, 30, 31]

/-- The years in which instants lie. -/
def firstYear : Int := -262143

def lastYear : Int := 262142

namespace Date

/-- Whether the calendar has the date, and in a year that instants reach. -/
def isValid (date : Date) : Bool :=
  decide (firstYear ≤ date.year ∧ date.year ≤ lastYear ∧ 1 ≤ date.month ∧ 1 ≤ date.day) &&
    match (monthLengths date.year)[date.month - 1]? with
    | some length => date.day ≤ length
    | none => false

end Date

/-- Days from the first of January of the year one to the first of January of a year. -/
def daysBeforeYear (year : Int) : Int :=
  365 * (year - 1) + (year - 1) / 4 - (year - 1) / 100 + (year - 1) / 400

/-- Days from the first of January of the year one to the first of January 1970. -/
def epochDays : Int := 719162

/-- Days from the first of January 1970 to the date. -/
def Date.toDays (date : Date) : Int :=
  let months := (monthLengths date.year).take (date.month - 1)
  daysBeforeYear date.year + (months.foldl (· + ·) 0 : Nat) + date.day - 1 - epochDays

/-- The year of a day counted from the first of January of the year one, and the day in that
year. Of the four centuries in a cycle the last has a day more, and so has the last of the four
years between leap days. -/
def splitYear (days : Int) : Int × Nat :=
  let cycle := days / 146097
  let inCycle := (days % 146097).toNat
  let century := min 3 (inCycle / 36524)
  let inCentury := inCycle - century * 36524
  let leapSpan := inCentury / 1461
  let inSpan := inCentury - leapSpan * 1461
  let year := min 3 (inSpan / 365)
  (400 * cycle + 100 * century + 4 * leapSpan + year + 1, inSpan - year * 365)

/-- The month, from `month` on, and the day in it, for a day counted from the first of `month`. -/
def splitMonth : (lengths : List Nat) → (month day : Nat) → Nat × Nat
  | [], month, day => (month, day + 1)
  | length :: rest, month, day =>
    if day < length then (month, day + 1) else splitMonth rest (month + 1) (day - length)

def Date.ofDays (days : Int) : Date :=
  let (year, dayOfYear) := splitYear (days + epochDays)
  let (month, day) := splitMonth (monthLengths year) 1 dayOfYear
  ⟨year, month, day⟩

end PullQuery.Time
