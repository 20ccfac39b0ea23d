import PullQuery.Proofs.Query.Conversions
import PullQuery.Proofs.Query.SearchedDurations

/-! Which durations of a text become seconds, told from the text alone: those that stand in it as words of
their own. A text with its durations in seconds is the text with these pieces replaced and nothing else
changed. -/
namespace PullQuery.Query
open PullQuery.Number PullQuery.Text QuoteState

namespace Duration

/-- The seconds of a duration with its sign. A fraction is counted in floats, rounded to whole seconds, and
stops at the largest word. -/
def total (d : Duration) : Int :=
  let magnitude : Int :=
    match d.fraction with
    | none => (digitsValue d.whole * d.unit.seconds : Nat)
    | some fraction => (nearestWord (decimalFloat d.whole fraction * Float.ofNat d.unit.seconds)).toInt
  if d.negative then -magnitude else magnitude

/-- The digits are plain, and without a fraction the seconds are a word. -/
def IsCounted (d : Duration) : Prop :=
  (d.whole.all Char.isDigit ∧ (d.fraction.getD []).all Char.isDigit) ∧
    (d.fraction = none → digitsValue d.whole * d.unit.seconds < 0x8000000000000000)

def FitsWord (d : Duration) : Prop :=
  digitsValue (d.whole ++ d.fraction.getD []) * d.unit.seconds <
    0x8000000000000000 * 10 ^ (d.fraction.getD []).length

instance (d : Duration) : Decidable d.IsCounted :=
  inferInstanceAs (Decidable ((_ ∧ _) ∧ (_ → _)))

instance (d : Duration) : Decidable d.FitsWord := inferInstanceAs (Decidable (_ < _))

theorem seconds?_eq (d : Duration) : d.seconds? = if d.IsCounted then some d.total else none := by
  obtain ⟨negative, whole, fraction, unit⟩ := d
  cases fraction with
  | none =>
    by_cases counted : whole.all Char.isDigit ∧ digitsValue whole * unit.seconds < 0x8000000000000000
    · have same : (⟨negative, whole, none, unit⟩ : Duration).IsCounted :=
        ⟨⟨counted.1, rfl⟩, fun _ => counted.2⟩
      rw [if_pos same, seconds?, magnitude?]
      simp only [if_pos counted, Option.map_some, total]
    · have other : ¬ (⟨negative, whole, none, unit⟩ : Duration).IsCounted :=
        fun same => counted ⟨same.1.1, same.2 rfl⟩
      rw [if_neg other, seconds?, magnitude?]
      simp only [if_neg counted, Option.map_none]
  | some digits =>
    have above := Int.toNat_of_nonneg (nearestWord_decimal_nonnegative whole digits unit)
    by_cases counted : whole.all Char.isDigit ∧ digits.all Char.isDigit
    · have same : (⟨negative, whole, some digits, unit⟩ : Duration).IsCounted := ⟨counted, by simp⟩
      rw [if_pos same, seconds?, magnitude?]
      simp only [if_pos counted, Option.map_some, total, above]
    · have other : ¬ (⟨negative, whole, some digits, unit⟩ : Duration).IsCounted :=
        fun same => counted same.1
      rw [if_neg other, seconds?, magnitude?]
      simp only [if_neg counted, Option.map_none]

theorem total_of_seconds? {d : Duration} {seconds : Int} (length : d.seconds? = some seconds) :
    seconds = d.total := by
  rw [seconds?_eq] at length
  split at length
  · exact (Option.some.inj length).symm
  · simp at length

/-- A duration in a text, between what is before it and what is behind it, that is a word of its own: the
unit ends where the word does, no literal holds a character of it, a minus in front of it is its own, and
neither a word nor a number nor a quote touches it. -/
structure Stands (d : Duration) (word before after : List Char) : Prop where
  written : d.IsWritten word
  counted : d.IsCounted
  ends : StopsRun isWordChar after
  outer : ∀ offset, before.length ≤ offset → offset < (before ++ d.written word).length →
    isQuoted (before ++ (d.written word ++ after)) offset = false
  follows : ∀ c ∈ before.getLast?, isAlphanumeric c = false ∧ c ≠ '_' ∧ c ≠ '.' ∧ isQuote c = false
  signed : d.negative = false → before.getLast? ≠ some '-'
  free : ∀ c ∈ after.head?, isQuote c = false

section Place
variable {before after : List Char}

private theorem mayFollow_reverse :
    mayFollow before.reverse = true ↔
      ∀ c ∈ before.getLast?, isAlphanumeric c = false ∧ c ≠ '_' ∧ c ≠ '.' ∧ isQuote c = false := by
  rw [← List.head?_reverse]
  cases before.reverse with
  | nil => simp [mayFollow]
  | cons c others => simp [mayFollow, and_assoc]

private theorem startsWithQuote_eq_false :
    startsWithQuote after = false ↔ ∀ c ∈ after.head?, isQuote c = false := by
  cases after <;> simp [startsWithQuote]

theorem outer_iff {source : List Char} (some : source ≠ []) (plain : ∀ c ∈ source, isQuote c = false) :
    (∀ offset, before.length ≤ offset → offset < (before ++ source).length →
      isQuoted (before ++ (source ++ after)) offset = false) ↔ outside.after before = outside := by
  constructor
  · intro outer
    obtain ⟨c, others, rfl⟩ := List.exists_cons_of_ne_nil some
    have begins := outer before.length (Nat.le_refl _) (by simp)
    rw [List.cons_append, isQuoted_eq before (plain c (.head _))] at begins
    simpa using begins
  · intro outer offset low high
    rw [List.length_append] at high
    obtain ⟨front, c, back, rfl, size⟩ : ∃ front c back, source = front ++ c :: back ∧
        front.length = offset - before.length :=
      ⟨source.take (offset - before.length), source[offset - before.length],
        source.drop (offset - before.length + 1), by simp, by rw [List.length_take]; omega⟩
    have passed : outside.after (before ++ front) = outside := by
      rw [after_append, outer, after_quoteFree fun c member => plain c (List.mem_append_left _ member)]
    have here := isQuoted_eq (before ++ front) (plain c (by simp)) (back ++ after)
    have place : (before ++ front).length = offset := by
      rw [List.length_append]
      omega
    rw [passed, place] at here
    simpa using here

end Place

/-- A duration stands in a text where it becomes seconds, unless the minus in front of it is its own. -/
theorem stands_iff {d : Duration} {word before after : List Char} (isWritten : d.IsWritten word)
    (ends : StopsRun isWordChar after) :
    d.Stands word before after ↔
      conversionAt? ⟨before.reverse, d.written word ++ after⟩ =
        some ⟨d, (d.written word).length, d.total⟩ ∧
      (d.negative = false → before.getLast? ≠ some '-') := by
  have apart := @outer_iff before after _ isWritten.ne_nil isWritten.quoteFree
  have behind : (d.written word ++ after).drop (d.written word).length = after := by simp
  simp only [conversionAt?_eq_some, isWritten.scan? ends, List.reverse_reverse, behind, mayFollow_reverse,
    startsWithQuote_eq_false, ← apart, seconds?_eq]
  constructor
  · intro stands
    rw [if_pos stands.counted]
    exact ⟨⟨trivial, rfl, stands.outer, stands.follows, stands.free⟩, stands.signed⟩
  · rintro ⟨⟨-, counted, outer, follows, free⟩, signed⟩
    refine ⟨isWritten, ?_, ends, outer, follows, signed, free⟩
    by_contra other
    simp [other] at counted

theorem IsWritten.char_cases {d : Duration} {word : List Char} (isWritten : d.IsWritten word) :
    ∀ c ∈ d.amount ++ word, isAlphanumeric c = true ∨ c = '.' := by
  intro c member
  rcases List.mem_append.mp member with number | letter
  · refine (isWritten.amount_char c number).symm.imp_left fun decimal => ?_
    simp [isAlphanumeric, isNumeric_of_isDecimal decimal]
  · exact .inl (by simp [isAlphanumeric, letters_of_unit isWritten.unit c letter])

/-- Within a duration no other one stands. -/
theorem IsWritten.not_stands_within {d e : Duration} {word other : List Char}
    (isWritten : d.IsWritten word) {front back left : List Char} (split : d.written word = front ++ back)
    (some : front ≠ []) {before after : List Char} (begins : back ++ left = e.written other ++ after) :
    ¬ e.Stands other (before ++ front) after := by
  intro stands
  obtain ⟨front, c, rfl⟩ : ∃ others c, front = others ++ [c] :=
    ⟨_, _, (List.dropLast_append_getLast some).symm⟩
  rw [List.append_assoc, List.singleton_append, Duration.written] at split
  obtain ⟨plain, -, point, -⟩ := stands.follows c (by simp)
  have foreign : c ∉ d.amount ++ word := by
    intro member
    rcases isWritten.char_cases c member with part | rfl
    · simp [part] at plain
    · exact point rfl
  -- The character in front of the other one is the sign, so the other one begins with a digit.
  obtain ⟨rfl, rfl⟩ : c = '-' ∧ back = d.amount ++ word := by
    cases negative : d.negative with
    | false =>
      rw [sign, negative] at split
      exact absurd (by simp [show d.amount ++ word = _ from split]) foreign
    | true =>
      rw [sign, negative] at split
      cases front with
      | nil =>
        obtain ⟨same, rest⟩ := List.cons.inj split
        exact ⟨same.symm, rest.symm⟩
      | cons first front =>
        obtain ⟨-, rest⟩ := List.cons.inj split
        exact absurd (by simp [show d.amount ++ word = _ from rest]) foreign
  obtain ⟨digit, more, decimal, first⟩ := isWritten.exists_cons (word ++ left)
  have unsigned := (stands.written.unsigned_written after).2
  rw [← begins, List.append_assoc, first] at unsigned
  refine stands.signed ?_ (by simp)
  rw [← unsigned]
  have plain : digit ≠ '-' := by
    rintro rfl
    exact absurd decimal (by decide)
  simpa using plain

theorem IsWritten.eq_of_stands {d e : Duration} {word other : List Char} (isWritten : d.IsWritten word)
    {left : List Char} (ends : StopsRun isWordChar left) {front back : List Char}
    (split : d.written word = front ++ back) {before after : List Char}
    (begins : back ++ left = e.written other ++ after) (stands : e.Stands other (before ++ front) after) :
    front = [] ∧ d = e ∧ word = other ∧ left = after := by
  by_cases first : front = []
  · subst first
    rw [List.nil_append] at split
    rw [← split] at begins
    exact ⟨rfl, isWritten.unique stands.written ends stands.ends begins⟩
  · exact absurd stands (isWritten.not_stands_within split first begins)

end Duration

end PullQuery.Query
