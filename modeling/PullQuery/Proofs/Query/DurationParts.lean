import PullQuery.Proofs.Query.StandingDurations

/-! The parts of a text with its durations in seconds: the durations that stand in it, and the other
characters one by one. What the parts say is what the rule of the durations writes. -/
namespace PullQuery.Query
open PullQuery.Number PullQuery.Text QuoteState

/-- A text taken apart into the durations that become seconds and the other characters. -/
inductive DurationPart where
  | kept (c : Char)
  | duration (d : Duration) (word : List Char)

namespace DurationPart

def source : DurationPart → List Char
  | kept c => [c]
  | duration d word => d.written word

def text : DurationPart → List Char
  | kept c => [c]
  | duration d _ => intDigits d.total

/-- The text if a duration stays whenever its amount is too long, with or without a fraction. -/
def fittingText : DurationPart → List Char
  | kept c => [c]
  | duration d word => if d.FitsWord then intDigits d.total else d.written word

def Occurs (parts : List DurationPart) (d : Duration) (word before after : List Char) : Prop :=
  ∃ front back, parts = front ++ duration d word :: back ∧ front.flatMap source = before ∧
    back.flatMap source = after

section Occurs
variable {parts : List DurationPart} {d : Duration} {word before after : List Char}

private theorem occurs_nil : ¬ Occurs [] d word before after := by
  rintro ⟨front, back, split, -⟩
  simp at split

private theorem occurs_cons (part : DurationPart) :
    Occurs (part :: parts) d word before after ↔
      part = duration d word ∧ before = [] ∧ after = parts.flatMap source ∨
        ∃ front, before = part.source ++ front ∧ Occurs parts d word front after := by
  constructor
  · rintro ⟨front, back, split, rfl, rfl⟩
    cases front with
    | nil =>
      obtain ⟨rfl, rfl⟩ := List.cons.inj split
      exact .inl ⟨rfl, rfl, rfl⟩
    | cons first front =>
      obtain ⟨rfl, rfl⟩ := List.cons.inj split
      exact .inr ⟨front.flatMap source, by simp, front, back, rfl, rfl, rfl⟩
  · rintro (⟨rfl, rfl, rfl⟩ | ⟨-, rfl, front, back, rfl, rfl, rfl⟩)
    · exact ⟨[], parts, rfl, rfl, rfl⟩
    · exact ⟨part :: front, back, rfl, by simp, rfl⟩

private theorem occurs_kept (cs : List Char) :
    Occurs (cs.map kept ++ parts) d word before after ↔
      ∃ front, before = cs ++ front ∧ Occurs parts d word front after := by
  induction cs generalizing before with
  | nil => simp
  | cons c cs ih =>
    rw [List.map_cons, List.cons_append, occurs_cons]
    simp [ih, source]

end Occurs

/-- The parts are those of the text behind `before`, and their durations the ones that stand in it. -/
def Marks (parts : List DurationPart) (before cs : List Char) : Prop :=
  parts.flatMap source = cs ∧ ∀ d word front after, Occurs parts d word front after ↔
    cs = front ++ (d.written word ++ after) ∧ d.Stands word (before ++ front) after

/-- What begins somewhere in a text begins in its first piece or behind it. -/
theorem append_eq_append_cases {piece left front rest : List Char} :
    piece ++ left = front ++ rest ↔
      (∃ back, piece = front ++ back ∧ back ≠ [] ∧ back ++ left = rest) ∨
        ∃ more, front = piece ++ more ∧ left = more ++ rest := by
  rw [List.append_eq_append_iff, or_comm]
  constructor
  · rintro (⟨back, rfl, rfl⟩ | behind)
    · by_cases empty : back = []
      · exact .inr ⟨[], by simp [empty], by simp [empty]⟩
      · exact .inl ⟨back, rfl, empty, rfl⟩
    · exact .inr behind
  · rintro (⟨back, rfl, -, rfl⟩ | behind)
    · exact .inl ⟨back, rfl, rfl⟩
    · exact .inr behind

private theorem flatMap_kept (cs : List Char) :
    (cs.map kept).flatMap source = cs ∧ (cs.map kept).flatMap text = cs := by
  simp only [List.flatMap_map, source, text]
  simp

section Marks
variable {parts : List DurationPart} {before left : List Char}

private theorem marks_nil : Marks [] before [] := by
  refine ⟨rfl, fun d word front after => iff_of_false occurs_nil ?_⟩
  rintro ⟨empty, stands⟩
  have some := stands.written.ne_nil
  simp [some] at empty

theorem Marks.keep {piece : List Char} (rest : Marks parts (before ++ piece) left)
    (alone : ∀ front back d word after, piece = front ++ back → back ≠ [] →
      back ++ left = Duration.written d word ++ after → ¬ d.Stands word (before ++ front) after) :
    Marks (piece.map kept ++ parts) before (piece ++ left) := by
  refine ⟨?_, fun d word front after => ?_⟩
  · rw [List.flatMap_append, rest.1, (flatMap_kept piece).1]
  · rw [occurs_kept, append_eq_append_cases]
    constructor
    · rintro ⟨more, rfl, occurs⟩
      obtain ⟨split, stands⟩ := (rest.2 d word more after).mp occurs
      exact ⟨.inr ⟨more, rfl, split⟩, by rwa [← List.append_assoc]⟩
    · rintro ⟨⟨back, split, some, begins⟩ | ⟨more, rfl, split⟩, stands⟩
      · exact absurd stands (alone front back d word after split some begins)
      · refine ⟨more, rfl, (rest.2 d word more after).mpr ⟨split, ?_⟩⟩
        rwa [List.append_assoc]

theorem Marks.convert {d : Duration} {word : List Char} (stands : d.Stands word before left)
    (rest : Marks parts (before ++ d.written word) left) :
    Marks (duration d word :: parts) before (d.written word ++ left) := by
  refine ⟨?_, fun e other front after => ?_⟩
  · rw [List.flatMap_cons, rest.1]
    rfl
  · rw [occurs_cons, append_eq_append_cases, rest.1]
    constructor
    · rintro (⟨same, rfl, rfl⟩ | ⟨more, rfl, occurs⟩)
      · obtain ⟨rfl, rfl⟩ := DurationPart.duration.inj same
        refine ⟨.inl ⟨_, rfl, stands.written.ne_nil, rfl⟩, ?_⟩
        rwa [List.append_nil]
      · obtain ⟨split, again⟩ := (rest.2 e other more after).mp occurs
        exact ⟨.inr ⟨more, rfl, split⟩, by rwa [source, ← List.append_assoc]⟩
    · rintro ⟨⟨back, split, some, begins⟩ | ⟨more, rfl, split⟩, again⟩
      · obtain ⟨rfl, rfl, rfl, rfl⟩ := stands.written.eq_of_stands stands.ends split begins again
        exact .inl ⟨rfl, rfl, rfl⟩
      · refine .inr ⟨more, rfl, (rest.2 e other more after).mpr ⟨split, ?_⟩⟩
        rwa [List.append_assoc]

end Marks

/-- A minus in front of a duration is its own. -/
def OwnsSign (before cs : List Char) : Prop :=
  before.head? = some '-' → ∀ d word rest, Duration.IsWritten d word → StopsRun isWordChar rest →
    cs = d.written word ++ rest → d.negative = true

private theorem ownsSign_keep {before cs : List Char} {c : Char}
    (none : Duration.scan? (c :: cs) = none) :
    OwnsSign (c :: before) cs := by
  intro minus d word rest isWritten ends same
  by_contra unsigned
  obtain rfl : c = '-' := by simpa using minus
  have negated : Duration.IsWritten { d with negative := true } word :=
    ⟨isWritten.some, isWritten.whole, isWritten.fraction, isWritten.unit⟩
  have written : '-' :: cs = Duration.written { d with negative := true } word ++ rest := by
    simp [same, Duration.written, Duration.sign, Duration.amount, unsigned]
  have found := negated.scan? ends
  rw [← written, none] at found
  simp at found

private theorem ownsSign_written {d : Duration} {word : List Char} (isWritten : d.IsWritten word)
    (before left : List Char) : OwnsSign ((d.written word).reverse ++ before) left := by
  intro minus
  have some : word.reverse ≠ [] := by simpa using ne_nil_of_unit isWritten.unit
  obtain ⟨c, others, reversed⟩ := List.exists_cons_of_ne_nil some
  obtain rfl : c = '-' := by simpa [Duration.written, reversed] using minus
  have letter := letters_of_unit isWritten.unit '-' (List.mem_reverse.mp (by simp [reversed]))
  exact absurd letter (by decide)

private theorem scan?_of_passed {before cs : List Char} (passed : durationRule before cs = none) :
    Duration.scan? cs = none := by
  cases found : Duration.scan? cs with
  | none => rfl
  | some front =>
    cases stays : conversionAt? ⟨before, cs⟩ with
    | none => simp [durationRule_left found stays] at passed
    | some conversion => simp [durationRule_converted stays] at passed

theorem Marks.stay {parts : List DurationPart} {d : Duration} {word before left : List Char}
    (isWritten : d.IsWritten word) (ends : StopsRun isWordChar left)
    (stays : conversionAt? ⟨before, d.written word ++ left⟩ = none)
    (rest : Marks parts (before.reverse ++ d.written word) left) :
    Marks ((d.written word).map kept ++ parts) before.reverse (d.written word ++ left) := by
  refine rest.keep fun front back e other after split some begins stands => ?_
  obtain ⟨rfl, rfl, rfl, rfl⟩ := isWritten.eq_of_stands ends split begins stands
  rw [List.append_nil] at stands
  have converted := ((Duration.stands_iff isWritten ends).mp stands).1
  simp [stays] at converted

/-- The parts of a text of which the rule of the durations writes the text. -/
theorem exists_marks (before cs : List Char) (own : OwnsSign before cs) :
    ∃ parts, Marks parts before.reverse cs ∧
      parts.flatMap text = replaceFrom durationRule before 0 cs := by
  induction before, cs using durations_induction with
  | nil before => exact ⟨[], marks_nil, rfl⟩
  | keep before c cs passed ih =>
    have none := scan?_of_passed passed
    obtain ⟨parts, marks, texts⟩ := ih (ownsSign_keep none)
    rw [List.reverse_cons] at marks
    refine ⟨kept c :: parts, marks.keep fun front back d word after split some begins stands => ?_, ?_⟩
    · obtain ⟨rfl, rfl⟩ : front = [] ∧ back = [c] := by
        simpa [List.singleton_eq_append_iff, some] using split
      have found := stands.written.scan? stands.ends
      rw [← begins, List.singleton_append, none] at found
      simp at found
    · rw [replaceFrom_keep passed, ← texts]
      rfl
  | piece before piece left text some picked _ ih =>
    cases found : Duration.scan? (piece ++ left) with
    | none => simp [durationRule, found] at picked
    | some front =>
      obtain ⟨d, width⟩ := front
      obtain ⟨word, rest, split, rfl, isWritten, ends⟩ := exists_written found
      cases converts : conversionAt? ⟨before, piece ++ left⟩ with
      | none =>
        have stays := durationRule_left found converts
        obtain ⟨size, rfl⟩ := Replacement.mk.inj (Option.some.inj (picked.symm.trans stays))
        obtain ⟨rfl, rfl⟩ := List.append_inj split size
        obtain ⟨parts, marks, texts⟩ := ih (ownsSign_written isWritten before left)
        rw [List.reverse_append, List.reverse_reverse] at marks
        refine ⟨_, marks.stay isWritten ends converts, ?_⟩
        rw [replaceFrom_piece some picked, ← texts, List.flatMap_append, (flatMap_kept _).2,
          List.take_left]
      | some conversion =>
        have converted := durationRule_converted converts
        obtain ⟨scanned, length, -⟩ := conversionAt?_eq_some.mp converts
        obtain ⟨size, rfl⟩ := Replacement.mk.inj (Option.some.inj (picked.symm.trans converted))
        obtain ⟨duration, width, seconds⟩ := conversion
        obtain ⟨rfl, rfl⟩ := Prod.mk.inj (Option.some.inj (found.symm.trans scanned))
        obtain ⟨rfl, rfl⟩ := List.append_inj split size
        obtain rfl : seconds = d.total := Duration.total_of_seconds? length
        have stands : d.Stands word before.reverse left := by
          refine (Duration.stands_iff isWritten ends).mpr ⟨by rwa [List.reverse_reverse], ?_⟩
          intro unsigned minus
          rw [List.getLast?_reverse] at minus
          simpa [unsigned] using own minus d word left isWritten ends rfl
        obtain ⟨parts, marks, texts⟩ := ih (ownsSign_written isWritten before left)
        rw [List.reverse_append, List.reverse_reverse] at marks
        refine ⟨_, marks.convert stands, ?_⟩
        rw [replaceFrom_piece some picked, ← texts]
        rfl

private theorem count_intDigits (n : Int) : (intDigits n).count '.' = 0 := by
  have digits : '.' ∉ natDigits n.natAbs := fun member => by
    simpa using isDigit_of_mem_natDigits member
  rw [List.count_eq_zero, intDigits]
  split <;> simp [digits]

private theorem count_text_le (parts : List DurationPart) :
    (parts.flatMap text).count '.' ≤ (parts.flatMap fittingText).count '.' := by
  induction parts with
  | nil => rfl
  | cons part parts ih =>
    have first : part.text.count '.' ≤ part.fittingText.count '.' := by
      cases part with
      | kept c => rfl
      | duration d word => simp [text, count_intDigits]
    simp only [List.flatMap_cons, List.count_append]
    omega

/-- A duration whose digits count but whose amount is too long has a point, and nothing that is written for
a duration has one. -/
theorem count_text_lt {parts : List DurationPart} {d : Duration} {word : List Char}
    (member : duration d word ∈ parts) (counted : d.IsCounted) (long : ¬ d.FitsWord) :
    (parts.flatMap text).count '.' < (parts.flatMap fittingText).count '.' := by
  obtain ⟨front, back, rfl⟩ := List.append_of_mem member
  have before := count_text_le front
  have behind := count_text_le back
  have here : (duration d word).text.count '.' < (duration d word).fittingText.count '.' := by
    cases fraction : d.fraction with
    | none =>
      have short := counted.2 fraction
      exact absurd (by simpa [Duration.FitsWord, fraction] using short) long
    | some digits =>
      rw [text, count_intDigits, fittingText, if_neg long, List.count_pos_iff]
      simp [Duration.written, Duration.amount, fraction]
  simp only [List.flatMap_append, List.flatMap_cons, List.count_append]
  omega

theorem fittingText_eq_iff {parts : List DurationPart}
    (counted : ∀ d word, duration d word ∈ parts → d.IsCounted) :
    parts.flatMap fittingText = parts.flatMap text ↔
      ∀ d word, duration d word ∈ parts → d.FitsWord := by
  constructor
  · intro same d word member
    by_contra long
    have less := count_text_lt member (counted d word member) long
    rw [same] at less
    exact Nat.lt_irrefl _ less
  · intro fits
    refine List.flatMap_congr fun part member => ?_
    cases part with
    | kept c => rfl
    | duration d word => rw [fittingText, if_pos (fits d word member), text]

/-- The durations among the parts of a text are those that stand in it. -/
theorem Marks.mem_iff {parts : List DurationPart} {q : List Char} (marks : Marks parts [] q)
    {d : Duration} {word : List Char} :
    duration d word ∈ parts ↔
      ∃ before after, q = before ++ (d.written word ++ after) ∧ d.Stands word before after := by
  constructor
  · intro member
    obtain ⟨front, back, split⟩ := List.append_of_mem member
    exact ⟨_, _, (marks.2 d word _ _).mp ⟨front, back, split, rfl, rfl⟩⟩
  · rintro ⟨before, after, stands⟩
    obtain ⟨front, back, rfl, -⟩ := (marks.2 d word before after).mpr stands
    simp

end DurationPart

open DurationPart

/-- A text with its durations in seconds is what a search with the pattern of a duration makes of it, and no
word wraps around in doing so. It is the text with the durations that stand in it replaced by their seconds
and everything else as it was. That is the text in which every amount stays that is too long, exactly if none
of the durations that stand in it has a fraction and is too long. -/
theorem becomes_seconds_iff_stands (q : List Char) :
    durationsInSeconds q = replacePieces searchRule q ∧
    (∀ d word, Duration.IsWritten d word → (toSeconds? d.sign d.amount word).map Int64.toInt =
      if d.IsCounted then some d.total else none) ∧
    ∃ parts : List DurationPart,
      parts.flatMap source = q ∧ parts.flatMap text = durationsInSeconds q ∧
      (∀ d word before after, Occurs parts d word before after ↔
        q = before ++ (d.written word ++ after) ∧ d.Stands word before after) ∧
      (parts.flatMap fittingText = durationsInSeconds q ↔
        ∀ (d : Duration) word before after, q = before ++ (d.written word ++ after) →
          d.Stands word before after → d.FitsWord) := by
  obtain ⟨parts, marks, texts⟩ := exists_marks [] q fun minus => by simp at minus
  refine ⟨by rw [searchRule_eq]; rfl, fun d word isWritten => ?_, parts, marks.1, texts, marks.2, ?_⟩
  · rw [toSeconds?_written isWritten, Duration.seconds?_eq]
  · have counted : ∀ d word, duration d word ∈ parts → d.IsCounted := by
      intro d word member
      obtain ⟨before, after, -, stands⟩ := marks.mem_iff.mp member
      exact stands.counted
    have same : durationsInSeconds q = parts.flatMap text := texts.symm
    rw [same, fittingText_eq_iff counted]
    simp only [marks.mem_iff]
    constructor
    · intro fits d word before after split stands
      exact fits d word ⟨before, after, split, stands⟩
    · rintro fits d word ⟨before, after, split, stands⟩
      exact fits d word before after split stands

theorem becomes_seconds_iff_stands_hours :
    durationsInSeconds "x > -1.5h".toList = "x > -5400".toList ∧
      ∃ parts : List DurationPart, parts.flatMap text = "x > -5400".toList ∧
        Occurs parts ⟨true, ['1'], some ['5'], .hour⟩ ['h'] "x > ".toList [] := by
  have seconds : durationsInSeconds "x > -1.5h".toList = "x > -5400".toList := by decide +kernel
  obtain ⟨-, -, parts, -, texts, stands, -⟩ := becomes_seconds_iff_stands "x > -1.5h".toList
  have outer : ∀ offset < 9, isQuoted "x > -1.5h".toList offset = false := by decide +kernel
  refine ⟨seconds, parts, texts.trans seconds, (stands _ _ _ _).mpr ⟨by decide +kernel, ?_⟩⟩
  have digits : isDecimal '1' = true ∧ isDecimal '5' = true := by decide
  have blank : isAlphanumeric ' ' = false ∧ isQuote ' ' = false := by decide +kernel
  exact ⟨⟨by decide, by simpa using digits.1, by simpa using digits.2, by decide⟩, by decide,
    by simp [StopsRun], fun offset _ within => outer offset within, by simpa using blank, by decide,
    by simp⟩

/-- A fraction whose amount is too long becomes the largest word, where the amount without it stays. -/
theorem long_fraction_becomes_seconds :
    (∀ (d : Duration) word before after,
      "300000000000.5y".toList = before ++ (d.written word ++ after) → d.Stands word before after →
        ¬ d.FitsWord) ∧
    durationsInSeconds "300000000000.5y".toList = "9223372036854775807".toList ∧
    durationsInSeconds "300000000000y".toList = "300000000000y".toList := by
  refine ⟨?_, by decide +kernel, by decide +kernel⟩
  intro d word before after split stands
  have converts := ((Duration.stands_iff stands.written stands.ends).mp stands).1
  have elsewhere : ∀ n < 16, n ≠ 0 → (conversionAt? ⟨("300000000000.5y".toList.take n).reverse,
      "300000000000.5y".toList.drop n⟩).isNone = true := by decide +kernel
  have first : Duration.scan? "300000000000.5y".toList =
      some (⟨false, "300000000000".toList, some ['5'], .year⟩, 15) := by rfl
  by_cases begins : before = []
  · subst begins
    have found := stands.written.scan? stands.ends
    rw [List.nil_append] at split
    rw [← split, first] at found
    obtain ⟨rfl, -⟩ := Prod.mk.inj (Option.some.inj found)
    decide
  · have short := congrArg List.length split
    have none := elsewhere before.length (by simp at short; omega) (by simpa using begins)
    rw [split, List.take_left, List.drop_left, converts] at none
    simp at none

end PullQuery.Query
