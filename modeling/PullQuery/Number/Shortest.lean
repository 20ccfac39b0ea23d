import PullQuery.Number.Binary64
import PullQuery.Number.Word

/-! The shortest decimal that reads back as a given float. All decimals strictly between the
midpoints to the neighbouring floats read back, and the midpoints too when the mantissa is even.
Of the decimals with the fewest digits the nearest is taken. -/
namespace PullQuery.Number

structure ScaledDecimal where
  digits : Nat
  exponent : Int
  deriving DecidableEq, Repr

/-- What decides between two decimals at the same distance. -/
inductive Tie where
  | up
  | even
  deriving DecidableEq, Repr

def leadingExponent (mantissa : Nat) (exponent : Int) : Int :=
  let estimate := ((mantissa.log2 : Int) + exponent) * 30103 / 100000
  let reaches (e : Int) : Bool :=
    Nat.pow 10 e.toNat * Nat.pow 2 (-exponent).toNat ≤
      mantissa * Nat.pow 2 exponent.toNat * Nat.pow 10 (-e).toNat
  if reaches (estimate + 1) then estimate + 1
  else if reaches estimate then estimate
  else estimate - 1

/-- The multiple of `10 ^ grid` that reads back as `mantissa * 2 ^ exponent`, if one of the two
next to it does; the nearer one if both do. -/
def gridHit? (tie : Tie) (mantissa : Nat) (exponent grid : Int) : Option ScaledDecimal :=
  let unit := Nat.pow 10 grid.toNat * Nat.pow 2 (2 - exponent).toNat
  let quarter := Nat.pow 2 (exponent - 2).toNat * Nat.pow 10 (-grid).toNat
  let value := 4 * mantissa * quarter
  let atPowerOfTwo := mantissa == Binary64.hiddenBit && decide (-1074 < exponent)
  let low := (if atPowerOfTwo then 4 * mantissa - 1 else 4 * mantissa - 2) * quarter
  let high := (4 * mantissa + 2) * quarter
  let inclusive := mantissa % 2 == 0
  let below := value / unit
  let belowHits := low < below * unit || (inclusive && below * unit == low && below != 0)
  let aboveHits := (below + 1) * unit < high || (inclusive && (below + 1) * unit == high)
  let twice := 2 * (value - below * unit)
  let aboveIsNearer := unit < twice || (twice == unit && (tie == .up || below % 2 == 1))
  if belowHits && !(aboveHits && aboveIsNearer) then some ⟨below, grid⟩
  else if aboveHits then some ⟨below + 1, grid⟩
  else none

/-- The shortest decimal of the positive number `mantissa * 2 ^ exponent`. Seventeen digits are
always enough. -/
def shortest (tie : Tie) (mantissa : Nat) (exponent : Int) : ScaledDecimal :=
  let leading := leadingExponent mantissa exponent
  let hit := (List.range 17).findSome? fun (places : Nat) =>
    gridHit? tie mantissa exponent (leading - places)
  hit.getD ⟨mantissa * Nat.pow 2 exponent.toNat, 0⟩

def significant (n : Nat) : List Char × Nat :=
  let digits := natDigits n
  let zeros := (digits.reverse.takeWhile (· == '0')).length
  (digits.take (digits.length - zeros), zeros)

def positional (digits : List Char) (exponent : Int) : List Char :=
  if 0 ≤ exponent then digits ++ List.replicate exponent.toNat '0'
  else
    let places := (-exponent).toNat
    if places < digits.length then
      digits.take (digits.length - places) ++ '.' :: digits.drop (digits.length - places)
    else '0' :: '.' :: List.replicate (places - digits.length) '0' ++ digits

/-- The text of a float as a value: its shortest decimal, always positional and without a
fraction of zero. -/
def floatText (x : Float) : String :=
  match Binary64.ofFloat x with
  | .nan => "NaN"
  | .infinite negative => if negative then "-inf" else "inf"
  | .finite negative mantissa exponent =>
    let magnitude :=
      if mantissa = 0 then ['0']
      else
        let decimal := shortest .up mantissa exponent
        let (digits, zeros) := significant decimal.digits
        positional digits (decimal.exponent + zeros)
    String.ofList (if negative then '-' :: magnitude else magnitude)

/-- The text of a float in a document: its shortest decimal, positional with at least one
decimal from a hundred-thousandth up to sixteen digits, else with an exponent. -/
def documentText (x : Float) : String :=
  match Binary64.ofFloat x with
  | .nan | .infinite _ => "null"
  | .finite negative mantissa exponent =>
    let magnitude :=
      if mantissa = 0 then ['0', '.', '0']
      else
        let decimal := shortest .even mantissa exponent
        let (digits, zeros) := significant decimal.digits
        let scale := decimal.exponent + zeros
        let leading := scale + digits.length - 1
        if -5 ≤ leading ∧ leading ≤ 15 then
          positional digits scale ++ if 0 ≤ scale then ['.', '0'] else []
        else
          digits.take 1 ++ (if digits.length = 1 then [] else '.' :: digits.drop 1)
            ++ 'e' :: (if 0 ≤ leading then '+' :: intDigits leading else intDigits leading)
    String.ofList (if negative then '-' :: magnitude else magnitude)

example : floatText 0.1 = "0.1" := by decide
example : floatText (-2) = "-2" := by decide
example : documentText 1 = "1.0" := by decide

end PullQuery.Number
