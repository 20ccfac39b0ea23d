import PullQuery.Number.Binary64
import PullQuery.Number.Reading
import PullQuery.Text.Parts
import PullQuery.Text.Quoted

/-! Relative times such as -7d and 2h. Those outside the quoted literals of a text are turned
into seconds before it is read as a query. -/
namespace PullQuery.Query

open PullQuery.Number
open PullQuery.Text

inductive TimeUnit where
  | year
  | month
  | week
  | day
  | hour
  | minute
  | second
  deriving DecidableEq, Repr

namespace TimeUnit

def seconds : TimeUnit → Nat
  | year => 31536000
  | month => 2592000
  | week => 604800
  | day => 86400
  | hour => 3600
  | minute => 60
  | second => 1

def spellings : List (List Char × TimeUnit) :=
  [(['y', 'e', 'a', 'r', 's'], year), (['y', 'e', 'a', 'r'], year), (['y'], year),
   (['m', 'o', 'n', 't', 'h', 's'], month), (['m', 'o', 'n', 't', 'h'], month), (['m', 'o'], month),
   (['w', 'e', 'e', 'k', 's'], week), (['w', 'e', 'e', 'k'], week), (['w'], week),
   (['d', 'a', 'y', 's'], day), (['d', 'a', 'y'], day), (['d'], day),
   (['h', 'o', 'u', 'r', 's'], hour), (['h', 'o', 'u', 'r'], hour), (['h', 'r', 's'], hour),
   (['h', 'r'], hour), (['h'], hour),
   (['m', 'i', 'n', 'u', 't', 'e', 's'], minute), (['m', 'i', 'n', 'u', 't', 'e'], minute),
   (['m', 'i', 'n', 's'], minute), (['m', 'i', 'n'], minute), (['m'], minute),
   (['s', 'e', 'c', 'o', 'n', 'd', 's'], second), (['s', 'e', 'c', 'o', 'n', 'd'], second),
   (['s', 'e', 'c', 's'], second), (['s', 'e', 'c'], second), (['s'], second)]

/-- The unit that a word spells, in small letters only. -/
def ofSpelling? (word : List Char) : Option TimeUnit :=
  (spellings.find? fun spelling => spelling.1 == word).map (·.2)

end TimeUnit

structure Duration where
  negative : Bool
  whole : List Char
  fraction : Option (List Char)
  unit : TimeUnit

namespace Duration

def unsigned : List Char → List Char
  | '-' :: rest => rest
  | rest => rest

def decimals : List Char → List Char
  | '.' :: rest => rest.takeWhile isDecimal
  | _ => []

/-- What stands behind the number at the front of a text. A point belongs to it only before
another digit. -/
def behindNumber (cs : List Char) : List Char :=
  let rest := cs.dropWhile isDecimal
  if (decimals rest).isEmpty then rest else rest.drop ((decimals rest).length + 1)

/-- The duration at the front of a text, and how many characters it takes. Its unit is the whole
run of characters of a word behind its digits. -/
def scan? (cs : List Char) : Option (Duration × Nat) :=
  let body := unsigned cs
  let whole := body.takeWhile isDecimal
  let fraction := decimals (body.dropWhile isDecimal)
  let rest := behindNumber body
  let word := rest.takeWhile isWordChar
  if whole.isEmpty then none
  else
    (TimeUnit.ofSpelling? word).map fun unit =>
      (⟨cs.head? == some '-', whole, if fraction.isEmpty then none else some fraction, unit⟩,
        cs.length - rest.length + word.length)

/-- The length in seconds without the sign, none beyond a word. A fraction is rounded to whole
seconds, a half upwards, and stops at the largest word. -/
def magnitude? (d : Duration) : Option Nat :=
  match d.fraction with
  | none =>
    let seconds := digitsValue d.whole * d.unit.seconds
    if d.whole.all Char.isDigit ∧ seconds < 0x8000000000000000 then some seconds else none
  | some fraction =>
    if d.whole.all Char.isDigit ∧ fraction.all Char.isDigit then
      some (nearestWord (decimalFloat d.whole fraction * Float.ofNat d.unit.seconds)).toInt.toNat
    else none

def seconds? (d : Duration) : Option Int :=
  d.magnitude?.map fun (magnitude : Nat) => if d.negative then -magnitude else magnitude

end Duration

/-- Whether a piece may stand behind the reversed text `before`: not as the end of a word or a
number, nor next to a quote. -/
def mayFollow : (before : List Char) → Bool
  | [] => true
  | c :: _ => !(isAlphanumeric c || c == '_' || c == '.' || isQuote c)

def startsWithQuote : List Char → Bool
  | [] => false
  | c :: _ => isQuote c

/-- Picks the durations. One that stands in a literal or in a word, or that is too long, stays as
it is. -/
def durationRule : PieceRule := fun before after => do
  let (duration, width) ← Duration.scan? after
  let written := after.take width
  let outside := QuoteState.outside.after before.reverse == .outside
  if outside && mayFollow before && !startsWithQuote (after.drop width) then
    match duration.seconds? with
    | some seconds => return ⟨width, intDigits seconds⟩
    | none => return ⟨width, written⟩
  else return ⟨width, written⟩

def durationsInSeconds (cs : List Char) : List Char := replacePieces durationRule cs

end PullQuery.Query
