import PullQuery.Number.Word
import PullQuery.Text.Parts
import PullQuery.Time.Instant

/-! Reading instants from text: strictly with fixed widths, as a plain date, and loosely with
blanks between the parts. -/
namespace PullQuery.Time

open PullQuery.Number
open PullQuery.Text

def readDigits? (least most : Nat) (cs : List Char) : Option (Nat × List Char) :=
  let digits := (cs.take most).takeWhile Char.isDigit
  if digits.length < least then none
  else some (digitsValue digits, cs.drop digits.length)

def readChar? (c : Char) : List Char → Option (List Char)
  | [] => none
  | d :: rest => if d = c then some rest else none

def readDateEnd? : List Char → Option (List Char)
  | 'T' :: rest | 't' :: rest | ' ' :: rest => some rest
  | _ => none

/-- Nanoseconds from an optional point and digits, of which nine count. -/
def readFraction? : List Char → Option (Nat × List Char)
  | '.' :: rest =>
    let digits := rest.takeWhile Char.isDigit
    let kept := digits.take 9
    if digits = [] then none
    else some (digitsValue kept * Nat.pow 10 (9 - kept.length), rest.drop digits.length)
  | rest => some (0, rest)

structure TimeOfDay where
  hour : Nat
  minute : Nat
  second : Nat
  nanos : Nat
  deriving DecidableEq, Repr

/-- Whether a clock shows the time. The sixtieth second is accepted in every minute. -/
def TimeOfDay.isValid (time : TimeOfDay) : Bool :=
  time.hour ≤ 23 && time.minute ≤ 59 && time.second ≤ 60

/-- The instant of a local date and time that is `offset` seconds ahead of universal time. -/
def instantOf? (date : Date) (time : TimeOfDay) (offset : Int) : Option Instant :=
  if date.isValid && time.isValid && decide (offset.natAbs < 86400) then
    let leap := time.second / 60
    Instant.make?
      (date.toDays * 86400 + time.hour * 3600 + time.minute * 60 + time.second - leap - offset)
      (time.nanos + leap * 1000000000)
  else none

/-- The sign of an offset: a plus, a hyphen or a minus sign. True means behind. -/
def readOffsetSign? : List Char → Option (Bool × List Char)
  | '+' :: rest => some (false, rest)
  | '-' :: rest | '\u2212' :: rest => some (true, rest)
  | _ => none

/-- An offset in seconds: the letter Z, or a sign, hours and minutes with `separate` reading what
stands between them. -/
def readOffset? (separate : List Char → Option (List Char)) (cs : List Char) :
    Option (Int × List Char) := do
  match cs with
  | 'Z' :: rest | 'z' :: rest => some (0, rest)
  | _ =>
    let (behind, rest) ← readOffsetSign? cs
    let (hours, rest) ← readDigits? 2 2 rest
    let rest ← separate rest
    let (minutes, rest) ← readDigits? 2 2 rest
    if 59 < minutes then none
    let offset : Int := hours * 3600 + minutes * 60
    return (if behind then -offset else offset, rest)

/-- Date and time with every part at its full width, then the offset and nothing more. -/
def readStrict? (cs : List Char) : Option Instant := do
  let (year, rest) ← readDigits? 4 4 cs
  let rest ← readChar? '-' rest
  let (month, rest) ← readDigits? 2 2 rest
  let rest ← readChar? '-' rest
  let (day, rest) ← readDigits? 2 2 rest
  let rest ← readDateEnd? rest
  let (hour, rest) ← readDigits? 2 2 rest
  let rest ← readChar? ':' rest
  let (minute, rest) ← readDigits? 2 2 rest
  let rest ← readChar? ':' rest
  let (second, rest) ← readDigits? 2 2 rest
  let (nanos, rest) ← readFraction? rest
  let (offset, rest) ← readOffset? (readChar? ':') rest
  if rest = [] then instantOf? ⟨year, month, day⟩ ⟨hour, minute, second, nanos⟩ offset else none

/-- A year after blanks: one to four digits, or a sign and any number of digits. -/
def readYear? (cs : List Char) : Option (Int × List Char) := do
  match skipBlanks cs with
  | '-' :: rest =>
    let (year, rest) ← readDigits? 1 rest.length rest
    return (-(year : Int), rest)
  | '+' :: rest =>
    let (year, rest) ← readDigits? 1 rest.length rest
    return (year, rest)
  | rest =>
    let (year, rest) ← readDigits? 1 4 rest
    return (year, rest)

def readPart? (cs : List Char) : Option (Nat × List Char) := readDigits? 1 2 (skipBlanks cs)

def readDate? (cs : List Char) : Option Instant := do
  let (year, rest) ← readYear? cs
  let rest ← readChar? '-' rest
  let (month, rest) ← readPart? rest
  let rest ← readChar? '-' rest
  let (day, rest) ← readPart? rest
  if rest = [] then instantOf? ⟨year, month, day⟩ ⟨0, 0, 0, 0⟩ 0 else none

/-- The instant that a text names, blanks around it aside: strictly or as a plain date. -/
def readInstant? (text : String) : Option Instant :=
  let cs := trimBlanks text.toList
  (readStrict? cs).orElse fun _ => readDate? cs

def readLooseOffset? (cs : List Char) : Option (Int × List Char) :=
  if (cs.take 3).map Char.toLower = ['u', 't', 'c'] then some (0, cs.drop 3)
  else readOffset? (fun rest => some (rest.dropWhile fun c => c == ':' || isBlank c)) cs

def readLoose? (cs : List Char) : Option Instant := do
  let (year, rest) ← readYear? cs
  let rest ← readChar? '-' (skipBlanks rest)
  let (month, rest) ← readPart? rest
  let rest ← readChar? '-' (skipBlanks rest)
  let (day, rest) ← readPart? rest
  let rest ← readDateEnd? rest
  let (hour, rest) ← readPart? rest
  let rest ← readChar? ':' (skipBlanks rest)
  let (minute, rest) ← readPart? rest
  let rest ← readChar? ':' (skipBlanks rest)
  let (second, rest) ← readPart? rest
  let (nanos, rest) ← readFraction? rest
  let (offset, rest) ← readLooseOffset? (skipBlanks rest)
  if skipBlanks rest = [] then
    instantOf? ⟨year, month, day⟩ ⟨hour, minute, second, nanos⟩ offset
  else none

end PullQuery.Time
