import PullQuery.Number.Binary64
import PullQuery.Number.Word

/-! Decimal numbers of at most 96 bits and 28 decimals, in which sums of floats are formed so
that a tenth and two tenths make three tenths. -/
namespace PullQuery.Number

/-- The number `mantissa / 10 ^ scale` with a sign. -/
structure Decimal where
  negative : Bool
  mantissa : Nat
  scale : Nat
  deriving DecidableEq, Repr

namespace Decimal

def capacity : Nat := 0x1000000000000000000000000

/-- Trades `steps` halvings for powers of ten: an even mantissa is halved, an odd one is
multiplied by five instead unless that would overflow. Yields the mantissa and how far the
power of ten moved. -/
def halve : (steps : Nat) → (mantissa : Nat) → (moved : Nat) → Nat × Nat
  | 0, mantissa, moved => (mantissa, moved)
  | steps + 1, mantissa, moved =>
    if mantissa % 2 = 0 then halve steps (mantissa / 2) (moved + 1)
    else if mantissa * 5 < capacity then halve steps (mantissa * 5) moved
    else halve steps (mantissa / 2) (moved + 1)

/-- Trades `steps` doublings for powers of ten: the mantissa is doubled, or divided by five when
its top bit is set. Yields the mantissa and how far the power of ten moved. -/
def double : (steps : Nat) → (mantissa : Nat) → (moved : Nat) → Nat × Nat
  | 0, mantissa, moved => (mantissa, moved)
  | steps + 1, mantissa, moved =>
    if mantissa < capacity / 2 then double steps (mantissa * 2) (moved + 1)
    else double steps (mantissa / 5) moved

/-- Drops a decimal, rounding a half up. -/
def dropDigit (mantissa : Nat) : Nat :=
  mantissa / 10 + if 5 ≤ mantissa % 10 then 1 else 0

def dropDigits : (steps : Nat) → (mantissa : Nat) → Nat
  | 0, mantissa => mantissa
  | steps + 1, mantissa => if mantissa / 10 = 0 then 0 else dropDigits steps (dropDigit mantissa)

/-- Drops decimals until the mantissa is below 52 bits or none is left. -/
def shorten : (mantissa : Nat) → (scale : Nat) → Nat × Nat
  | mantissa, 0 => (mantissa, 0)
  | mantissa, scale + 1 =>
    if 0x10000000000000 ≤ mantissa then shorten (dropDigit mantissa) scale
    else (mantissa, scale + 1)

def stripZeros : (mantissa : Nat) → (scale : Nat) → Nat × Nat
  | mantissa, 0 => (mantissa, 0)
  | mantissa, scale + 1 =>
    if mantissa % 10 = 0 then stripZeros (mantissa / 10) scale else (mantissa, scale + 1)

/-- The decimal of a float to about sixteen digits. Whole numbers keep all their digits; a float
that is not finite or needs more than 96 bits has none. -/
def ofFloat? (x : Float) : Option Decimal :=
  match Binary64.ofFloat x with
  | .finite negative 0 _ => some ⟨negative, 0, 0⟩
  | .finite negative mantissa exponent =>
    let (mantissa, power) : Nat × Int :=
      if exponent < 0 then
        let (mantissa, moved) := halve exponent.natAbs mantissa 0
        (mantissa, exponent + moved)
      else
        let (mantissa, moved) := double exponent.natAbs mantissa 0
        (mantissa, exponent - moved)
    if 0 < power then
      let mantissa := mantissa * Nat.pow 10 power.toNat
      if mantissa < capacity then some ⟨negative, mantissa, 0⟩ else none
    else
      let scale := (-power).toNat
      let mantissa := dropDigits (scale - 28) mantissa
      let (mantissa, scale) := shorten mantissa (if mantissa = 0 then 0 else min scale 28)
      let (mantissa, scale) := stripZeros mantissa scale
      some ⟨negative, mantissa, scale⟩
  | _ => none

def scaledTo (d : Decimal) (scale : Nat) : Int :=
  let magnitude := d.mantissa * Nat.pow 10 (scale - d.scale)
  if d.negative then -(magnitude : Int) else magnitude

/-- Divides by `10 ^ dropped`, rounding a half to the even neighbour. -/
def roundDropped (n : Nat) (dropped : Nat) : Nat :=
  let unit := Nat.pow 10 dropped
  let quotient := n / unit
  let twice := 2 * (n % unit)
  if unit < twice ∨ (twice = unit ∧ quotient % 2 = 1) then quotient + 1 else quotient

/-- Brings a magnitude into the capacity by dropping as few decimals as possible. -/
def fit? (n scale : Nat) : Option (Nat × Nat) :=
  if n < capacity then some (n, scale)
  else
    (List.range scale).findSome? fun index =>
      let dropped := index + 1
      let kept := roundDropped n dropped
      if n / Nat.pow 10 dropped < capacity ∧ kept < capacity then some (kept, scale - dropped)
      else none

/-- The sum, none when its whole part needs more than 96 bits. A zero leaves the other summand
as it is. -/
def add? (a b : Decimal) : Option Decimal :=
  if a.mantissa = 0 then some b
  else if b.mantissa = 0 then some a
  else
    let scale := max a.scale b.scale
    let sum := a.scaledTo scale + b.scaledTo scale
    (fit? sum.natAbs scale).map fun (mantissa, scale) => ⟨decide (sum < 0), mantissa, scale⟩

def negate (d : Decimal) : Decimal := { d with negative := !d.negative }

def toWord? (d : Decimal) : Option Int64 :=
  let unit := Nat.pow 10 d.scale
  if d.mantissa % unit = 0 then
    let magnitude := d.mantissa / unit
    word? (if d.negative then -(magnitude : Int) else magnitude)
  else none

/-- The float of the decimal: the whole part plus the fraction, rounded to as many decimals as
the decimal has. -/
def toFloat (d : Decimal) : Float :=
  let unit := Nat.pow 10 d.scale
  let whole := Float.ofNat (d.mantissa / unit)
  let magnitude :=
    if d.mantissa % unit = 0 then whole
    else
      let fraction := Float.ofNat (d.mantissa % unit) / Float.ofNat unit
      nearestWhole ((whole + fraction) * Float.ofNat unit) / Float.ofNat unit
  if d.negative then -magnitude else magnitude

end Decimal
end PullQuery.Number
