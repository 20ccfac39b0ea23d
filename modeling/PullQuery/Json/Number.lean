import PullQuery.Number.Reading

/-! Numbers as JSON writes them. An integer keeps its value up to 64 bits. Anything else is a
float, formed in floating point from the digits that fit 64 bits and a power of ten. -/
namespace PullQuery.Json

open PullQuery.Number

inductive Number where
  | integer (n : Int)
  | float (x : Float)
  deriving DecidableEq

def largestDigits : Nat := 0xffffffffffffffff

/-- Gathers digits into a number as long as it stays in range, and counts the digits left over. -/
def gather : (sum : Nat) → List Char → Nat × Nat
  | sum, [] => (sum, 0)
  | sum, c :: rest =>
    let next := 10 * sum + (c.toNat - '0'.toNat)
    if largestDigits < next then (sum, rest.length + 1) else gather next rest

/-- The number `f * 10 ^ exponent` by one multiplication or division, or by several where the
power is beyond the floats. None if it becomes infinite. -/
def scale? : (attempts : Nat) → (f : Float) → (exponent : Int) → Option Float
  | attempts, f, exponent =>
    if exponent.natAbs ≤ 308 then
      let power := Float.ofScientific 1 false exponent.natAbs
      if 0 ≤ exponent then if (f * power).isInf then none else some (f * power)
      else some (f / power)
    else if f == 0 then some f
    else if 0 ≤ exponent then none
    else
      match attempts with
      | 0 => some 0
      | attempts + 1 => scale? attempts (f / Float.ofScientific 1 false 308) (exponent + 308)

structure NumberParts where
  negative : Bool
  whole : List Char
  fraction : Option (List Char)
  exponent : Option Int

/-- The value of a number, none beyond the range of floats. Minus zero is a float. -/
def NumberParts.value? (parts : NumberParts) : Option Number :=
  let signed (x : Float) : Number := .float (if parts.negative then -x else x)
  let (digits, left) := gather 0 parts.whole
  match parts.fraction, parts.exponent with
  | none, none =>
    if left = 0 ∧ !parts.negative then some (.integer digits)
    else if left = 0 ∧ 0 < digits ∧ digits ≤ 0x8000000000000000 then some (.integer (-digits))
    else (scale? 3 (Float.ofNat digits) left).map signed
  | fraction, exponent =>
    let decimals := fraction.getD []
    let (digits, unused) := gather digits decimals
    let moved : Int := left - (decimals.length - unused : Nat)
    let exponent := exponent.getD 0
    if 0x80000000 ≤ exponent.natAbs then
      if 0 < exponent ∧ digits ≠ 0 then none else some (signed 0)
    else (scale? 3 (Float.ofNat digits) (moved + exponent)).map signed

def scanExponent? (cs : List Char) : Option (Int × Nat) :=
  let (negative, rest) := splitSign cs
  let digits := rest.takeWhile Char.isDigit
  let magnitude : Int := digitsValue digits
  if digits = [] then none
  else
    let width := cs.length - rest.length + digits.length + 1
    some (if negative then -magnitude else magnitude, width)

/-- The number at the front of a text and how many characters it takes: an optional minus, digits
without a leading zero, then optionally a point with digits and an exponent. The value is none
beyond the range of floats. -/
def scanNumber? (cs : List Char) : Option (Option Number × Nat) :=
  let (negative, rest) : Bool × List Char :=
    match cs with
    | '-' :: rest => (true, rest)
    | rest => (false, rest)
  let whole := rest.takeWhile Char.isDigit
  let rest := rest.dropWhile Char.isDigit
  let width := whole.length + if negative then 1 else 0
  if whole = [] ∨ (whole.head? = some '0' ∧ whole.length ≠ 1) then none
  else
    let afterFraction : Option (Option (List Char) × List Char × Nat) :=
      match rest with
      | '.' :: rest =>
        let digits := rest.takeWhile Char.isDigit
        if digits = [] then none
        else some (some digits, rest.dropWhile Char.isDigit, width + 1 + digits.length)
      | rest => some (none, rest, width)
    match afterFraction with
    | none => none
    | some (fraction, 'e' :: rest, width) | some (fraction, 'E' :: rest, width) =>
      (scanExponent? rest).map fun (exponent, taken) =>
        (NumberParts.value? ⟨negative, whole, fraction, some exponent⟩, width + taken)
    | some (fraction, _, width) =>
      some (NumberParts.value? ⟨negative, whole, fraction, none⟩, width)

end PullQuery.Json
