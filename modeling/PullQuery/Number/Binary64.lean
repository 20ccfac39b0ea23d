/-! The exact value of a 64-bit floating-point number, and the integers next to it. -/
namespace PullQuery.Number

/-- What the bits of a float stand for: a finite one is `mantissa * 2 ^ exponent` with a sign. -/
inductive Binary64 where
  | nan
  | infinite (negative : Bool)
  | finite (negative : Bool) (mantissa : Nat) (exponent : Int)
  deriving DecidableEq, Repr

namespace Binary64

/-- The bit above the fraction, which a normal float does not store. -/
def hiddenBit : Nat := 0x10000000000000

def ofFloat (x : Float) : Binary64 :=
  let bits := x.toBits.toNat
  let negative : Bool := 0x8000000000000000 ≤ bits
  let exponent : Nat := bits / hiddenBit % 0x800
  let fraction : Nat := bits % hiddenBit
  if exponent = 2047 then if fraction = 0 then infinite negative else nan
  else if exponent = 0 then finite negative fraction (-1074)
  else finite negative (hiddenBit + fraction) (exponent - 1075)

end Binary64

def isWhole (x : Float) : Bool :=
  match Binary64.ofFloat x with
  | .finite _ mantissa exponent => 0 ≤ exponent || mantissa % Nat.pow 2 (-exponent).toNat == 0
  | _ => false

def roundMagnitude (mantissa : Nat) (exponent : Int) : Nat :=
  if 0 ≤ exponent then mantissa * Nat.pow 2 exponent.toNat
  else
    let unit := Nat.pow 2 (-exponent).toNat
    (2 * mantissa + unit) / (2 * unit)

/-- The nearest word, a half away from zero. What lies beyond the words becomes the outermost
word, and what is no number becomes zero. -/
def nearestWord (x : Float) : Int64 :=
  match Binary64.ofFloat x with
  | .nan => 0
  | .infinite negative => if negative then Int64.minValue else Int64.maxValue
  | .finite negative mantissa exponent =>
    let magnitude : Int := roundMagnitude mantissa exponent
    Int64.ofIntClamp (if negative then -magnitude else magnitude)

/-- The float that is the nearest integer, a half away from zero. A float without fraction bits
is itself. -/
def nearestWhole (x : Float) : Float :=
  match Binary64.ofFloat x with
  | .finite negative mantissa exponent =>
    if 0 ≤ exponent then x
    else
      let magnitude := Float.ofNat (roundMagnitude mantissa exponent)
      if negative then -magnitude else magnitude
  | _ => x

end PullQuery.Number
