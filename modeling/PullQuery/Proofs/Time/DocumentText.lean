import PullQuery.Proofs.Text.Runs
import PullQuery.Proofs.Time.Calendar
import PullQuery.Time.Reading
import PullQuery.Time.Text

/-! The text of an instant in a document names that instant. -/
namespace PullQuery.Time

open PullQuery.Number
open PullQuery.Text

section Digits
variable {width n : Nat}

private theorem le_length_padded : width ≤ (padded width n).length := by
  rw [padded, List.length_append, List.length_replicate]
  omega

private theorem length_padded (some : 0 < width) (fits : n < 10 ^ width) :
    (padded width n).length = width := by
  have short := (Nat.length_toDigits_le_iff (by decide) some).mpr fits
  rw [padded, List.length_append, List.length_replicate]
  exact Nat.sub_add_cancel short

private theorem isDigit_of_mem_padded {c : Char} (member : c ∈ padded width n) :
    c.isDigit = true := by
  rcases List.mem_append.mp member with zero | digit
  · obtain rfl := (List.mem_replicate.mp zero).2
    rfl
  · exact isDigit_of_mem_natDigits digit

private theorem digitsValue_padded (width n : Nat) : digitsValue (padded width n) = n := by
  rw [padded, digitsValue, Nat.ofDigitChars_append, Nat.ofDigitChars_replicate_zero, Nat.mul_zero]
  exact digitsValue_natDigits n

theorem readDigits?_run {least most : Nat} {digits rest : List Char}
    (all : ∀ c ∈ digits, c.isDigit = true) (enough : least ≤ digits.length)
    (fits : digits.length ≤ most) (ends : digits.length = most ∨ StopsRun Char.isDigit rest) :
    readDigits? least most (digits ++ rest) = some (digitsValue digits, rest) := by
  have taken : ((digits ++ rest).take most).takeWhile Char.isDigit = digits := by
    rw [List.take_append, List.take_of_length_le fits]
    refine (run_split all ?_).1
    rcases ends with full | stops
    · simp [full, StopsRun]
    · intro c first
      rw [List.head?_take] at first
      split at first
      · simp at first
      · exact stops c first
  simp only [readDigits?, taken, if_neg (show ¬ digits.length < least by omega), List.drop_left]

theorem skipBlanks_digits {digits : List Char} (some : digits ≠ [])
    (all : ∀ c ∈ digits, c.isDigit = true) (rest : List Char) :
    skipBlanks (digits ++ rest) = digits ++ rest := by
  obtain ⟨c, behind, rfl⟩ := List.exists_cons_of_ne_nil some
  have visible : ¬ isBlank c = true := fun blank => by
    have numeric := isNumeric_of_isDigit (all c (.head _))
    simp [isNumeric_of_isBlank blank] at numeric
  rw [skipBlanks, List.cons_append, List.dropWhile_cons_of_neg visible]

private theorem padded_ne_nil : padded width n ≠ [] := by
  simp [padded, natDigits_ne_nil]

private theorem readPart?_padded (fits : n < 100) (rest : List Char) :
    readPart? (padded 2 n ++ rest) = some (n, rest) := by
  have length : (padded 2 n).length = 2 := length_padded (by decide) fits
  rw [readPart?, skipBlanks_digits padded_ne_nil fun _ => isDigit_of_mem_padded]
  rw [readDigits?_run (fun _ => isDigit_of_mem_padded) (by omega) (by omega) (.inl length)]
  rw [digitsValue_padded]

private theorem readFraction?_padded (some : 0 < width) (short : width ≤ 9) (fits : n < 10 ^ width)
    {rest : List Char} (stops : StopsRun Char.isDigit rest) :
    readFraction? ('.' :: padded width n ++ rest) = .some (n * 10 ^ (9 - width), rest) := by
  have length := length_padded some fits
  have digital : ∀ c ∈ padded width n, c.isDigit = true := fun _ => isDigit_of_mem_padded
  have taken := (run_split digital stops).1
  have kept : (padded width n).take 9 = padded width n := List.take_of_length_le (by omega)
  simp only [List.cons_append, readFraction?, taken, kept, if_neg padded_ne_nil, digitsValue_padded]
  rw [List.drop_left, length]
  rfl

end Digits

private theorem stops_behind_digits {c : Char} (other : c.isDigit = false) (rest : List Char) :
    StopsRun Char.isDigit (c :: rest) := by
  rintro d ⟨⟩
  exact other

private theorem readFraction?_fractionText {nanos : Nat} (fits : nanos < 1000000000) :
    readFraction? (fractionText nanos ++ ['Z']) = some (nanos, ['Z']) := by
  have stops := stops_behind_digits (show Char.isDigit 'Z' = false from rfl) []
  unfold fractionText
  split
  · subst nanos
    rfl
  split
  · rw [readFraction?_padded (by decide) (by decide) (by omega) stops]
    rw [show nanos / 1000000 * 10 ^ (9 - 3) = nanos by omega]
  split
  · rw [readFraction?_padded (by decide) (by decide) (by omega) stops]
    rw [show nanos / 1000 * 10 ^ (9 - 6) = nanos by omega]
  · rw [readFraction?_padded (by decide) (by decide) (by omega) stops]
    rw [show nanos * 10 ^ (9 - 9) = nanos by omega]

private theorem readYear?_yearText (year : Int) (rest : List Char) :
    readYear? (yearText year ++ '-' :: rest) = some (year, '-' :: rest) := by
  have stops := stops_behind_digits (show Char.isDigit '-' = false from rfl) rest
  have digits (n : Nat) {most : Nat} (fits : (padded 4 n).length ≤ most) :
      readDigits? 1 most (padded 4 n ++ '-' :: rest) = some (n, '-' :: rest) := by
    have four := @le_length_padded 4 n
    rw [readDigits?_run (fun _ => isDigit_of_mem_padded) (by omega) fits (.inr stops)]
    rw [digitsValue_padded]
  unfold yearText
  split
  · have back : (year.toNat : Int) = year := by omega
    have read := digits year.toNat (length_padded (by decide) (by omega)).le
    have digital : ∀ c ∈ padded 4 year.toNat, c.isDigit = true := fun _ => isDigit_of_mem_padded
    have minus := run_ne_cons padded_ne_nil digital (show Char.isDigit '-' = false from rfl)
      ('-' :: rest)
    have plus := run_ne_cons padded_ne_nil digital (show Char.isDigit '+' = false from rfl)
      ('-' :: rest)
    rw [readYear?, skipBlanks_digits padded_ne_nil digital]
    simp [read, back]
  · have read := digits year.natAbs
      (show _ ≤ (padded 4 year.natAbs ++ '-' :: rest).length by simp)
    by_cases negative : year < 0
    · have back : -(year.natAbs : Int) = year := by omega
      have stays (cs : List Char) : skipBlanks ('-' :: cs) = '-' :: cs := rfl
      rw [if_pos negative, readYear?, List.cons_append, stays]
      simp only [read, Option.bind_eq_bind, Option.bind_some, Option.pure_def, back]
    · have back : (year.natAbs : Int) = year := by omega
      have stays (cs : List Char) : skipBlanks ('+' :: cs) = '+' :: cs := rfl
      rw [if_neg negative, readYear?, List.cons_append, stays]
      simp only [read, Option.bind_eq_bind, Option.bind_some, Option.pure_def, back]

namespace Instant

theorem make?_self (t : Instant) : make? t.seconds t.nanos = some t :=
  dif_pos ⟨t.inCalendar, t.nanos_lt, t.endsMinute⟩

theorem instantOf?_ofDays (t : Instant) :
    let inDay := (t.seconds % 86400).toNat
    instantOf? (Date.ofDays (t.seconds / 86400))
      ⟨inDay / 3600, inDay / 60 % 60, inDay % 60 + t.nanos / 1000000000, t.nanos % 1000000000⟩ 0 =
        some t := by
  intro inDay
  have reaches := t.inCalendar
  have size := t.nanos_lt
  have last := t.endsMinute
  have leap : (inDay % 60 + t.nanos / 1000000000) / 60 = t.nanos / 1000000000 := by omega
  have date := Date.isValid_ofDays (Int.ediv_le_ediv (by decide) reaches.1)
    (Int.ediv_le_ediv (by decide) reaches.2)
  have clock : TimeOfDay.isValid ⟨inDay / 3600, inDay / 60 % 60,
      inDay % 60 + t.nanos / 1000000000, t.nanos % 1000000000⟩ = true := by
    simp only [TimeOfDay.isValid, Bool.and_eq_true, decide_eq_true_eq]
    omega
  have seconds : t.seconds / 86400 * 86400 + (inDay / 3600 : Nat) * 3600 +
      (inDay / 60 % 60 : Nat) * 60 + (inDay % 60 + t.nanos / 1000000000 : Nat) -
      (t.nanos / 1000000000 : Nat) - 0 = t.seconds := by
    omega
  have nanos : t.nanos % 1000000000 + t.nanos / 1000000000 * 1000000000 = t.nanos := by omega
  simp only [instantOf?, date, clock, Date.toDays_ofDays, leap, seconds, nanos]
  exact make?_self t

theorem readLoose?_documentText (t : Instant) : readLoose? t.documentText.toList = some t := by
  have whole := instantOf?_ofDays t
  have size := t.nanos_lt
  have bounds := Date.bounds_ofDays (t.seconds / 86400)
  have length : (t.seconds % 86400).toNat < 86400 := by omega
  dsimp only at whole
  simp only [documentText, textWith, String.toList_ofList, dateText, List.cons_append,
    List.append_assoc]
  -- From here on only the bounds of the date and of the second in the day are needed.
  generalize Date.ofDays (t.seconds / 86400) = date at whole bounds ⊢
  generalize (t.seconds % 86400).toNat = inDay at whole length ⊢
  have month : date.month < 100 := by omega
  have day : date.day < 100 := by omega
  have hours : inDay / 3600 < 100 := by omega
  have minutes : inDay / 60 % 60 < 100 := by omega
  have seconds : inDay % 60 + t.nanos / 1000000000 < 100 := by omega
  have fraction := readFraction?_fractionText (show t.nanos % 1000000000 < 1000000000 by omega)
  have hyphen (rest : List Char) : readChar? '-' (skipBlanks ('-' :: rest)) = some rest := rfl
  have colon (rest : List Char) : readChar? ':' (skipBlanks (':' :: rest)) = some rest := rfl
  have between (rest : List Char) : readDateEnd? ('T' :: rest) = some rest := rfl
  have universal : readLooseOffset? (skipBlanks ['Z']) = some (0, []) := rfl
  simp only [readLoose?, readYear?_yearText, readPart?_padded, Option.bind_eq_bind, Option.bind_some,
    hyphen, colon, between, universal, month, day, hours, minutes, seconds, fraction]
  exact (if_pos rfl).trans whole

end Instant

end PullQuery.Time
