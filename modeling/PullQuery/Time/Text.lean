import PullQuery.Number.Word
import PullQuery.Time.Instant

/-! The text of an instant: date and time of day in universal time, with the fewest of no, three,
six or nine decimals that lose nothing. -/
namespace PullQuery.Time

open PullQuery.Number

def padded (width n : Nat) : List Char :=
  let digits := natDigits n
  List.replicate (width - digits.length) '0' ++ digits

/-- Four digits at least, and a sign on years that need more or lie before the year zero. -/
def yearText (year : Int) : List Char :=
  if 0 ≤ year ∧ year ≤ 9999 then padded 4 year.toNat
  else (if year < 0 then '-' else '+') :: padded 4 year.natAbs

def dateText (date : Date) : List Char :=
  yearText date.year ++ '-' :: padded 2 date.month ++ '-' :: padded 2 date.day

def fractionText (nanos : Nat) : List Char :=
  if nanos = 0 then []
  else if nanos % 1000000 = 0 then '.' :: padded 3 (nanos / 1000000)
  else if nanos % 1000 = 0 then '.' :: padded 6 (nanos / 1000)
  else '.' :: padded 9 nanos

namespace Instant

/-- Date, time of day and the mark for universal time. A leap second is the sixtieth of its
minute. -/
def textWith (t : Instant) (universal : List Char) : String :=
  let inDay := (t.seconds % 86400).toNat
  let second := inDay % 60 + t.nanos / 1000000000
  String.ofList <|
    dateText (Date.ofDays (t.seconds / 86400)) ++ 'T' :: padded 2 (inDay / 3600)
      ++ ':' :: padded 2 (inDay / 60 % 60) ++ ':' :: padded 2 second
      ++ fractionText (t.nanos % 1000000000) ++ universal

def text (t : Instant) : String := t.textWith ['+', '0', '0', ':', '0', '0']

def documentText (t : Instant) : String := t.textWith ['Z']

end Instant
end PullQuery.Time
