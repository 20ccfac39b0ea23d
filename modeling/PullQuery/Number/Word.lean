/-! Signed 64-bit words: which integers fit, and how words are read from and written in
decimal digits. -/
namespace PullQuery.Number

def word? (n : Int) : Option Int64 :=
  if -0x8000000000000000 ≤ n ∧ n < 0x8000000000000000 then some (Int64.ofInt n) else none

theorem toInt_of_word? {n : Int} {w : Int64} (fits : word? n = some w) : w.toInt = n := by
  unfold word? at fits
  split at fits
  · rename_i bounds
    obtain rfl := Option.some.inj fits
    exact Int64.toInt_ofInt_of_le bounds.1 bounds.2
  · simp at fits

theorem word?_toInt (w : Int64) : word? w.toInt = some w := by
  have low := w.le_toInt
  have high := w.toInt_lt
  have fits : -0x8000000000000000 ≤ w.toInt ∧ w.toInt < 0x8000000000000000 := by omega
  simp only [word?, fits, and_self, if_true, Int64.ofInt_toInt]

def digitsValue (digits : List Char) : Nat := Nat.ofDigitChars 10 digits 0

def readWord? (digits : List Char) : Option Int64 :=
  if digits ≠ [] ∧ digits.all Char.isDigit then word? (digitsValue digits) else none

def natDigits (n : Nat) : List Char := Nat.toDigits 10 n

theorem digitsValue_natDigits (n : Nat) : digitsValue (natDigits n) = n :=
  Nat.ofDigitChars_ten_toDigits

theorem isDigit_of_mem_natDigits {n : Nat} {c : Char} (member : c ∈ natDigits n) :
    c.isDigit = true := Nat.isDigit_of_mem_toDigits (by decide) (by decide) member

theorem natDigits_ne_nil (n : Nat) : natDigits n ≠ [] := Nat.toDigits_ne_nil

def intDigits (n : Int) : List Char :=
  if n < 0 then '-' :: natDigits n.natAbs else natDigits n.natAbs

def wordText (w : Int64) : String := String.ofList (intDigits w.toInt)

end PullQuery.Number
