import PullQuery.Proofs.Number.Unsigned
import PullQuery.Proofs.Query.DurationPattern

/-! What a search does with the durations that it finds. The groups of a match are counted in words, and
what a literal holds or a word or a quote touches is left alone. This is the rule that reads durations
character by character, so the two rewrite every text alike. -/
namespace PullQuery.Query
open PullQuery.Number PullQuery.Text

section Digits
variable {c : Char} (decimal : isDecimal c = true)
include decimal

private theorem toLower_of_isDecimal : c.toLower = c := by
  have plain : c.isAlpha = false := by
    cases letter : c.isAlpha with
    | false => rfl
    | true =>
      have alphabetic := isAlphabetic_of_isAlpha letter
      simp [isAlphabetic_of_isDecimal decimal] at alphabetic
  simp only [Char.isAlpha, Bool.or_eq_false_iff, Char.isUpper] at plain
  unfold Char.toLower
  grind

private theorem readExponent?_of_isDecimal (rest : List Char) :
    readExponent? (c :: rest) = none := by
  have mark : ¬ (c = 'e' ∨ c = 'E') := by
    rintro (rfl | rfl) <;> exact absurd decimal (by decide)
  simp [readExponent?, mark]

theorem readFloat?_of_isDecimal (rest : List Char) :
    readFloat? (c :: rest) = readMagnitude? (c :: rest) := by
  have other (d : Char) (plain : isDecimal d = false) : c ≠ d := by
    rintro rfl
    simp [decimal] at plain
  have sign : splitSign (c :: rest) = (false, c :: rest) := by
    unfold splitSign
    split
    · rename_i same
      exact absurd (List.cons.inj same).1 (other '-' (by decide))
    · rename_i same
      exact absurd (List.cons.inj same).1 (other '+' (by decide))
    · rfl
  have name (d : Char) (more : List Char) (plain : isDecimal d = false) :
      String.ofList ((c :: rest).map Char.toLower) ≠ String.ofList (d :: more) := by
    intro same
    have first := (List.cons.inj (String.ofList_injective same)).1
    rw [toLower_of_isDecimal decimal] at first
    exact other d plain first
  have infinite := name 'i' ['n', 'f'] (by decide)
  have infinity := name 'i' ['n', 'f', 'i', 'n', 'i', 't', 'y'] (by decide)
  have none := name 'n' ['a', 'n'] (by decide)
  unfold readFloat?
  simp only [sign]
  rw [if_neg (not_or.mpr ⟨infinite, infinity⟩), if_neg none]
  simp

end Digits

private theorem readMagnitude?_decimal {whole fraction : List Char} (some : whole ≠ [])
    (all : ∀ c ∈ whole, isDecimal c = true) (decimals : ∀ c ∈ fraction, isDecimal c = true) :
    readMagnitude? (whole ++ '.' :: fraction) =
      if whole.all Char.isDigit ∧ fraction.all Char.isDigit then .some (decimalFloat whole fraction)
      else none := by
  obtain ⟨digits, others, rfl, run, stops⟩ := exists_run Char.isDigit whole
  cases others with
  | nil =>
    rw [List.append_nil] at *
    obtain ⟨more, others, rfl, behind, ends⟩ := exists_run Char.isDigit fraction
    have point : StopsRun Char.isDigit ('.' :: (more ++ others)) := by simp [StopsRun]
    obtain ⟨taken, dropped⟩ := run_split run point
    obtain ⟨read, left⟩ := run_split behind ends
    unfold readMagnitude?
    simp only [taken, dropped, read, left, some, false_and, if_false]
    cases others with
    | nil =>
      have digit : digits.all Char.isDigit ∧ (more ++ []).all Char.isDigit := by
        simpa using ⟨run, behind⟩
      rw [if_pos digit]
      simp [readExponent?, decimalFloat]
    | cons c others =>
      have other : c.isDigit = false := ends c rfl
      simp [readExponent?_of_isDecimal (decimals c (by simp)), other]
  | cons c others =>
    have other : c.isDigit = false := stops c rfl
    obtain ⟨taken, dropped⟩ := @run_split _ digits (c :: (others ++ '.' :: fraction)) run
      (by simpa [StopsRun] using other)
    have decimal := all c (by simp)
    have noExponent := readExponent?_of_isDecimal decimal (others ++ '.' :: fraction)
    unfold readMagnitude?
    rw [List.append_assoc, List.cons_append, if_neg (by simp [other])]
    simp only [taken, dropped]
    split
    · rename_i same
      obtain rfl := (List.cons.inj same).1
      exact absurd decimal (by decide)
    · rw [noExponent]
      split <;> rfl

private theorem readFloat?_decimal {whole fraction : List Char} (some : whole ≠ [])
    (all : ∀ c ∈ whole, isDecimal c = true) (decimals : ∀ c ∈ fraction, isDecimal c = true) :
    readFloat? (whole ++ '.' :: fraction) =
      if whole.all Char.isDigit ∧ fraction.all Char.isDigit then .some (decimalFloat whole fraction)
      else none := by
  obtain ⟨c, others, rfl⟩ := List.exists_cons_of_ne_nil some
  exact (readFloat?_of_isDecimal (all c (.head _)) _).trans (readMagnitude?_decimal some all decimals)

def toMagnitude? (number : List Char) (unit : TimeUnit) : Option Int64 :=
  if '.' ∈ number then (readFloat? number).map fun x => nearestWord (x * Float.ofNat unit.seconds)
  else (readWord? number).bind fun n => word? (n.toInt * unit.seconds)

def toSeconds? (sign number word : List Char) : Option Int64 := do
  let unit ← TimeUnit.ofSpelling? word
  let magnitude ← toMagnitude? number unit
  some (if sign = ['-'] then -magnitude else magnitude)

private theorem isPositive_seconds (unit : TimeUnit) :
    isPositive (Float.ofNat unit.seconds).toModel.unpack = true := by
  cases unit <;> decide

theorem nearestWord_decimal_nonnegative (whole fraction : List Char) (unit : TimeUnit) :
    0 ≤ (nearestWord (decimalFloat whole fraction * Float.ofNat unit.seconds)).toInt := by
  obtain ⟨mantissa, exponent, above, value⟩ := exists_of_isPositive (isPositive_seconds unit)
  refine nearestWord_nonnegative (IsUnsigned.unpack_pack ?_)
  rw [value]
  exact (isUnsigned_scaledFloat _ _).mul above

private theorem map_word?_natCast (n : Nat) :
    (word? n).map Int64.toInt = if n < 0x8000000000000000 then some (n : Int) else none := by
  cases read : word? n with
  | none =>
    have large : ¬ n < 0x8000000000000000 := by
      intro small
      have fits : -0x8000000000000000 ≤ (n : Int) ∧ (n : Int) < 0x8000000000000000 := by omega
      simp [word?, fits] at read
    rw [if_neg large]
    rfl
  | some w =>
    have value := toInt_of_word? read
    have bound := w.toInt_lt
    rw [if_pos (by omega), Option.map_some, value]

theorem map_product (whole : List Char) (unit : TimeUnit) :
    ((word? (digitsValue whole)).bind fun n => word? (n.toInt * unit.seconds)).map Int64.toInt =
      (if digitsValue whole * unit.seconds < 0x8000000000000000 then
        some (digitsValue whole * unit.seconds) else none).map (Nat.cast : Nat → Int) := by
  have positive : 0 < unit.seconds := by cases unit <;> decide
  have larger := Nat.le_mul_of_pos_right (digitsValue whole) positive
  have value := map_word?_natCast (digitsValue whole)
  cases read : word? (digitsValue whole) with
  | none =>
    have large : ¬ digitsValue whole * unit.seconds < 0x8000000000000000 := by
      intro small
      rw [read, if_pos (by omega)] at value
      simp at value
    rw [if_neg large]
    rfl
  | some n =>
    rw [Option.bind_some, toInt_of_word? read, ← Nat.cast_mul, map_word?_natCast]
    split <;> rfl

section Seconds
variable {d : Duration} {word : List Char} (isWritten : d.IsWritten word)
include isWritten

private theorem toMagnitude?_written :
    (toMagnitude? d.amount d.unit).map Int64.toInt = d.magnitude?.map (Nat.cast : Nat → Int) := by
  have noPoint : '.' ∉ d.whole := fun member => absurd (isWritten.whole '.' member) (by decide)
  unfold toMagnitude? Duration.magnitude?
  cases fraction : d.fraction with
  | none =>
    have amount : d.amount = d.whole := by simp [Duration.amount, fraction]
    rw [amount, if_neg noPoint]
    unfold readWord?
    by_cases digits : d.whole.all Char.isDigit
    · rw [if_pos ⟨isWritten.some, digits⟩]
      simp only [digits, true_and]
      exact map_product d.whole d.unit
    · rw [if_neg fun both => digits both.2]
      simp [digits]
  | some digits =>
    obtain ⟨more, decimals⟩ := isWritten.fraction digits fraction
    have amount : d.amount = d.whole ++ '.' :: digits := by simp [Duration.amount, fraction]
    have above := nearestWord_decimal_nonnegative d.whole digits d.unit
    rw [amount, if_pos (by simp), readFloat?_decimal isWritten.some isWritten.whole decimals]
    simp only
    split
    · exact congrArg Option.some (Int.toNat_of_nonneg above).symm
    · rfl

/-- The seconds that the groups of a match stand for are those of the duration, and no word wraps
around. -/
theorem toSeconds?_written : (toSeconds? d.sign d.amount word).map Int64.toInt = d.seconds? := by
  have size := toMagnitude?_written isWritten
  have sign : d.sign = ['-'] ↔ d.negative = true := by
    unfold Duration.sign
    split <;> simp_all
  unfold toSeconds? Duration.seconds?
  rw [isWritten.unit, Option.bind_eq_bind, Option.bind_some]
  cases read : toMagnitude? d.amount d.unit with
  | none =>
    rw [read, Option.map_none, eq_comm, Option.map_eq_none_iff] at size
    simp [size]
  | some n =>
    rw [read, Option.map_some, eq_comm, Option.map_eq_some_iff] at size
    obtain ⟨magnitude, length, value⟩ := size
    have bound := n.toInt_lt
    have negated : (-n).toInt = -n.toInt := by
      rw [Int64.toInt_neg]
      exact Int.bmod_eq_of_le (by omega) (by omega)
    simp only [sign, length, Option.bind_eq_bind, Option.bind_some, Option.map_some]
    split
    · rw [negated, value]
    · rw [value]

end Seconds

def isQuoted (cs : List Char) (offset : Nat) : Bool := (literalSpans cs).any (·.holds offset)

def isRewritable (cs : List Char) (start stop : Nat) : Bool :=
  !isQuoted cs start &&
    !(cs.take start).getLast?.any (fun c => isAlphanumeric c || c == '_' || c == '.' || isQuote c) &&
    !(cs.drop stop).head?.any isQuote

/-- Picks what a search finds. A match that may not be rewritten, or is too long, stays as it is. -/
def searchRule : PieceRule := fun before after =>
  (durationPattern.matchesAt before after).head?.map fun found =>
    let stop := before.length + found.taken.length
    let seconds? :=
      match found.groups with
      | [sign, number, word] => toSeconds? sign number word
      | _ => none
    ⟨found.taken.length,
      if isRewritable (before.reverse ++ after) before.length stop then
        seconds?.elim found.taken fun n => intDigits n.toInt
      else found.taken⟩

theorem isQuoted_eq (before : List Char) {c : Char} (plain : isQuote c = false) (after : List Char) :
    isQuoted (before ++ c :: after) before.length = !(QuoteState.outside.after before == .outside) := by
  rw [isQuoted, ← List.isSome_find?]
  by_cases outer : QuoteState.outside.after before = .outside
  · rw [find?_literalSpans_plain outer plain, outer]
    rfl
  · obtain ⟨span, found, -⟩ := find?_literalSpans_inner outer c after
    rw [found]
    simp [outer]

private theorem isRewritable_eq (before : List Char) {source : List Char} (some : source ≠ [])
    (plain : ∀ c ∈ source, isQuote c = false) (rest : List Char) :
    isRewritable (before.reverse ++ (source ++ rest)) before.length (before.length + source.length) =
      (QuoteState.outside.after before.reverse == .outside && mayFollow before &&
        !startsWithQuote rest) := by
  obtain ⟨c, others, rfl⟩ := List.exists_cons_of_ne_nil some
  have outer := isQuoted_eq before.reverse (plain c (.head _)) (others ++ rest)
  have last : ((before.reverse ++ (c :: others ++ rest)).take before.length).getLast? = before.head? := by
    rw [List.take_left' (by simp), List.getLast?_reverse]
  have next : (before.reverse ++ (c :: others ++ rest)).drop (before.length + (c :: others).length) =
      rest := by
    rw [← List.append_assoc, List.drop_left' (by simp)]
  have follows : mayFollow before = !before.head?.any
      fun c => isAlphanumeric c || c == '_' || c == '.' || isQuote c := by
    cases before <;> rfl
  rw [List.length_reverse] at outer
  rw [isRewritable, List.cons_append, outer, Bool.not_not, follows, startsWithQuote_eq]
  rw [List.cons_append] at last next
  rw [last, next]

/-- A search picks what reading durations picks. -/
theorem searchRule_eq : searchRule = durationRule := by
  funext before after
  cases found : Duration.scan? after with
  | none => simp [searchRule, durationRule, found, head?_durationPattern_none found]
  | some front =>
    obtain ⟨d, width⟩ := front
    obtain ⟨word, rest, rfl, rfl, isWritten, ends⟩ := exists_written found
    have picked := @durationRule_found before _ [] _ _ _ _ found rfl rfl (by simp [AtQuote])
    rw [List.append_nil, Duration.rewritten, ← toSeconds?_written isWritten, Option.elim_map,
      List.head?_nil, Option.or_none, ← startsWithQuote_eq] at picked
    simp only [searchRule, head?_durationPattern isWritten ends, Option.map_some,
      isRewritable_eq before isWritten.ne_nil isWritten.quoteFree rest, picked]
    rfl

end PullQuery.Query
