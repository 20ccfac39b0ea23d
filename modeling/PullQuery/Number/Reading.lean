import PullQuery.Number.Word

/-! Reading decimal numbers as floats, correctly rounded. -/
namespace PullQuery.Number

/-- The float nearest to `digits * 10 ^ exponent`. The size of the number decides before its
value is formed: far beyond the largest float it is infinite, far below the smallest it is zero. -/
def scaledFloat (digits : Nat) (exponent : Int) : Float :=
  let size := (natDigits digits).length + exponent
  if digits = 0 ∨ size < -400 then 0
  else if 400 < size then Float.ofBits 0x7ff0000000000000
  else Float.ofScientific digits (decide (exponent < 0)) exponent.natAbs

def decimalFloat (whole fraction : List Char) : Float :=
  scaledFloat (digitsValue (whole ++ fraction)) (-fraction.length)

def splitSign : List Char → Bool × List Char
  | '-' :: rest => (true, rest)
  | '+' :: rest => (false, rest)
  | rest => (false, rest)

def readExponent? : List Char → Option Int
  | [] => some 0
  | mark :: rest =>
    let (negative, digits) := splitSign rest
    if (mark = 'e' ∨ mark = 'E') ∧ digits ≠ [] ∧ digits.all Char.isDigit then
      let magnitude : Int := digitsValue digits
      some (if negative then -magnitude else magnitude)
    else none

/-- Digits with an optional point before, among or after them, then an optional exponent. -/
def readMagnitude? (cs : List Char) : Option Float :=
  let whole := cs.takeWhile Char.isDigit
  let (fraction, rest) :=
    match cs.dropWhile Char.isDigit with
    | '.' :: rest => (rest.takeWhile Char.isDigit, rest.dropWhile Char.isDigit)
    | rest => ([], rest)
  if whole = [] ∧ fraction = [] then none
  else (readExponent? rest).map fun exponent =>
    scaledFloat (digitsValue (whole ++ fraction)) (exponent - fraction.length)

/-- A float as a text gives it: an optional sign and a decimal, or a name for infinity or for
no number in letters of any case. -/
def readFloat? (cs : List Char) : Option Float :=
  let (negative, rest) := splitSign cs
  let name := String.ofList (rest.map Char.toLower)
  let magnitude? :=
    if name = "inf" ∨ name = "infinity" then some (Float.ofBits 0x7ff0000000000000)
    else if name = "nan" then some (Float.ofBits 0x7ff8000000000000)
    else readMagnitude? rest
  magnitude?.map fun magnitude => if negative then -magnitude else magnitude

end PullQuery.Number
