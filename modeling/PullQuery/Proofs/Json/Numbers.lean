import PullQuery.Json.Number
import PullQuery.Proofs.Text.Runs
import Mathlib.Data.List.Basic

/-! How numbers are written, and that the scanner takes exactly these texts: it finds the parts of a
number that is written in front of anything that does not go on with it, and whatever it takes is
written from the parts that it finds. -/
namespace PullQuery.Json

open PullQuery.Number
open PullQuery.Text (StopsRun run_split run_ne_cons exists_run)

def isNumberPart (c : Char) : Bool := c.isDigit || c == '.' || c == 'e' || c == 'E'

theorem stopsDigit {rest : List Char} (ends : StopsRun isNumberPart rest) :
    StopsRun Char.isDigit rest := by
  intro c first
  have plain := ends c first
  simp only [isNumberPart, Bool.or_eq_false_iff] at plain
  exact plain.1.1.1

structure IsDigits (digits : List Char) : Prop where
  ne_nil : digits ≠ []
  all : ∀ c ∈ digits, c.isDigit = true

inductive FractionText : Option (List Char) → List Char → Prop
  | absent : FractionText none []
  | present {digits : List Char} (isDigits : IsDigits digits) :
      FractionText (some digits) ('.' :: digits)

inductive SignText : Bool → List Char → Prop
  | absent : SignText false []
  | plus : SignText false ['+']
  | minus : SignText true ['-']

/-- A mark with a sign and digits behind it, or nothing. -/
inductive ExponentText : Option Int → List Char → Prop
  | absent : ExponentText none []
  | present {mark : Char} {negative : Bool} {sign digits : List Char} (marks : mark = 'e' ∨ mark = 'E')
      (signed : SignText negative sign) (isDigits : IsDigits digits) :
      ExponentText (some (if negative then -(digitsValue digits : Int) else digitsValue digits))
        (mark :: (sign ++ digits))

/-- A number with these parts. A zero in front stands alone. -/
inductive NumberText : NumberParts → List Char → Prop
  | mk {negative : Bool} {whole point mark : List Char} {fraction : Option (List Char)}
      {exponent : Option Int} (isDigits : IsDigits whole)
      (proper : whole.head? = some '0' → whole.length = 1) (decimals : FractionText fraction point)
      (scale : ExponentText exponent mark) :
      NumberText ⟨negative, whole, fraction, exponent⟩
        ((if negative then ['-'] else []) ++ (whole ++ (point ++ mark)))

private theorem splitSign_sign {negative : Bool} {sign digits : List Char}
    (signed : SignText negative sign) (isDigits : IsDigits digits) (rest : List Char) :
    splitSign (sign ++ (digits ++ rest)) = (negative, digits ++ rest) := by
  cases signed with
  | plus | minus => rfl
  | absent =>
    rw [List.nil_append, splitSign]
    · exact run_ne_cons isDigits.ne_nil isDigits.all rfl rest
    · exact run_ne_cons isDigits.ne_nil isDigits.all rfl rest

private theorem scanExponent?_text {negative : Bool} {sign digits rest : List Char}
    (signed : SignText negative sign) (isDigits : IsDigits digits) (stops : StopsRun Char.isDigit rest) :
    scanExponent? (sign ++ (digits ++ rest)) =
      some (if negative then -(digitsValue digits : Int) else digitsValue digits,
        sign.length + digits.length + 1) := by
  rw [scanExponent?, splitSign_sign signed isDigits]
  simp only [(run_split isDigits.all stops).1, if_neg isDigits.ne_nil]
  simp

private theorem exists_sign (cs : List Char) :
    ∃ negative sign behind, cs = sign ++ behind ∧ splitSign cs = (negative, behind) ∧
      SignText negative sign := by
  unfold splitSign
  split
  · exact ⟨true, ['-'], _, rfl, rfl, .minus⟩
  · exact ⟨false, ['+'], _, rfl, rfl, .plus⟩
  · exact ⟨false, [], _, rfl, rfl, .absent⟩

private theorem exponentText_of_scanExponent? {cs : List Char} {exponent : Int} {width : Nat}
    (scanned : scanExponent? cs = some (exponent, width)) {mark : Char}
    (marks : mark = 'e' ∨ mark = 'E') :
    ∃ source after, mark :: cs = source ++ after ∧ width = source.length ∧
      ExponentText (some exponent) source := by
  obtain ⟨negative, sign, behind, rfl, split, signed⟩ := exists_sign cs
  obtain ⟨digits, after, rfl, all, stops⟩ := exists_run Char.isDigit behind
  simp only [scanExponent?, split, (run_split all stops).1] at scanned
  split at scanned
  · simp at scanned
  · rename_i some
    simp only [Option.some.injEq, Prod.mk.injEq] at scanned
    obtain ⟨rfl, rfl⟩ := scanned
    refine ⟨mark :: (sign ++ digits), after, by simp, ?_, .present marks signed ⟨some, all⟩⟩
    simp

def splitMinus : List Char → Bool × List Char
  | '-' :: rest => (true, rest)
  | rest => (false, rest)

def scanFraction? : List Char → Option (Option (List Char) × List Char × Nat)
  | '.' :: rest =>
    let digits := rest.takeWhile Char.isDigit
    if digits = [] then none
    else some (some digits, rest.dropWhile Char.isDigit, 1 + digits.length)
  | rest => some (none, rest, 0)

def scanScale? : List Char → Option (Option Int × Nat)
  | 'e' :: rest | 'E' :: rest =>
    (scanExponent? rest).map fun (exponent, taken) => (some exponent, taken)
  | _ => some (none, 0)

private theorem mark_cases (cs : List Char) :
    (∃ rest, cs = 'e' :: rest) ∨ (∃ rest, cs = 'E' :: rest) ∨
      (∀ rest, cs ≠ 'e' :: rest) ∧ ∀ rest, cs ≠ 'E' :: rest := by
  by_cases small : ∃ rest, cs = 'e' :: rest
  · exact .inl small
  · by_cases capital : ∃ rest, cs = 'E' :: rest
    · exact .inr (.inl capital)
    · exact .inr (.inr ⟨not_exists.mp small, not_exists.mp capital⟩)

theorem scanNumber?_eq (cs : List Char) :
    scanNumber? cs =
      let (negative, rest) := splitMinus cs
      let whole := rest.takeWhile Char.isDigit
      if whole = [] ∨ (whole.head? = some '0' ∧ whole.length ≠ 1) then none
      else
        (scanFraction? (rest.dropWhile Char.isDigit)).bind fun (fraction, behind, width) =>
          (scanScale? behind).map fun (exponent, taken) =>
            (NumberParts.value? ⟨negative, whole, fraction, exponent⟩,
              whole.length + (if negative then 1 else 0) + width + taken) := by
  unfold scanNumber?
  split
  rename_i negative rest sign
  rw [show splitMinus cs = (negative, rest) from sign]
  dsimp only
  generalize rest.takeWhile Char.isDigit = whole
  generalize rest.dropWhile Char.isDigit = behind
  split
  · rfl
  -- Decimals or none, and behind them a mark of either case or none.
  by_cases point : ∃ more, behind = '.' :: more
  · obtain ⟨more, rfl⟩ := point
    by_cases empty : more.takeWhile Char.isDigit = []
    · simp [scanFraction?, empty]
    · simp only [scanFraction?, if_neg empty, Option.bind_some]
      generalize more.dropWhile Char.isDigit = left
      obtain ⟨rest, rfl⟩ | ⟨rest, rfl⟩ | ⟨small, capital⟩ := mark_cases left
      · simp [scanScale?, Nat.add_assoc, Function.comp_def]
      · simp [scanScale?, Nat.add_assoc, Function.comp_def]
      · simp [scanScale?, Nat.add_assoc]
  · have other := not_exists.mp point
    simp only [scanFraction?, Option.bind_some]
    obtain ⟨rest, rfl⟩ | ⟨rest, rfl⟩ | ⟨small, capital⟩ := mark_cases behind
    · simp [scanScale?, Function.comp_def]
    · simp [scanScale?, Function.comp_def]
    · simp [scanScale?]

private theorem ExponentText.stops {exponent : Option Int} {source rest : List Char}
    (written : ExponentText exponent source) (stops : StopsRun Char.isDigit rest) :
    StopsRun Char.isDigit (source ++ rest) := by
  cases written with
  | absent => exact stops
  | present marks signed isDigits =>
    rintro c ⟨⟩
    rcases marks with rfl | rfl <;> rfl

private theorem FractionText.stops {fraction : Option (List Char)} {source rest : List Char}
    (written : FractionText fraction source) (stops : StopsRun Char.isDigit rest) :
    StopsRun Char.isDigit (source ++ rest) := by
  cases written with
  | absent => exact stops
  | present isDigits =>
    rintro c ⟨⟩
    rfl

private theorem ExponentText.scanScale? {exponent : Option Int} {source rest : List Char}
    (written : ExponentText exponent source) (ends : StopsRun isNumberPart rest) :
    scanScale? (source ++ rest) = some (exponent, source.length) := by
  cases written with
  | absent =>
    have small : ∀ more, rest ≠ 'e' :: more := ends.ne_cons rfl
    have capital : ∀ more, rest ≠ 'E' :: more := ends.ne_cons rfl
    simp [Json.scanScale?]
  | present marks signed isDigits =>
    have scanned := scanExponent?_text signed isDigits (stopsDigit ends)
    rcases marks with rfl | rfl <;> simp [Json.scanScale?, scanned]

private theorem FractionText.scanFraction? {fraction : Option (List Char)} {source rest : List Char}
    (written : FractionText fraction source) (stops : StopsRun Char.isDigit rest)
    (plain : ∀ more, rest ≠ '.' :: more) :
    scanFraction? (source ++ rest) = some (fraction, rest, source.length) := by
  cases written with
  | absent => simp [Json.scanFraction?]
  | present isDigits =>
    simp [Json.scanFraction?, run_split isDigits.all stops, isDigits.ne_nil, Nat.add_comm]

theorem NumberText.scanNumber? {parts : NumberParts} {source rest : List Char}
    (written : NumberText parts source) (ends : StopsRun isNumberPart rest) :
    scanNumber? (source ++ rest) = some (parts.value?, source.length) := by
  obtain ⟨isDigits, proper, decimals, scale⟩ := written
  rename_i negative whole point mark fraction exponent
  have atMark := scale.stops (stopsDigit ends)
  obtain ⟨taken, left⟩ := run_split isDigits.all (decimals.stops atMark)
  have unsigned : ∀ more, whole ++ (point ++ (mark ++ rest)) ≠ '-' :: more :=
    run_ne_cons isDigits.ne_nil isDigits.all rfl _
  have sign : splitMinus ((if negative then ['-'] else []) ++ (whole ++ (point ++ mark)) ++ rest) =
      (negative, whole ++ (point ++ (mark ++ rest))) := by
    cases negative with
    | true => simp [splitMinus]
    | false => simp [splitMinus]
  have valid : ¬ (whole = [] ∨ whole.head? = some '0' ∧ whole.length ≠ 1) := by
    rintro (empty | ⟨leading, long⟩)
    · exact isDigits.ne_nil empty
    · exact long (proper leading)
  have plain : ∀ more, mark ++ rest ≠ '.' :: more := by
    cases scale with
    | absent => exact ends.ne_cons rfl
    | present marks =>
      rintro more ⟨⟩
      simp at marks
  -- Each part is scanned up to where the next one begins.
  rw [scanNumber?_eq, sign]
  simp only [taken, left, if_neg valid, decimals.scanFraction? atMark plain, Option.bind_some,
    scale.scanScale? ends, Option.map_some, Option.some.injEq, Prod.mk.injEq, true_and]
  cases negative with
  | true => simp; omega
  | false => simp; omega

private theorem exists_minus (cs : List Char) :
    ∃ negative behind, cs = (if negative then ['-'] else []) ++ behind ∧
      splitMinus cs = (negative, behind) := by
  unfold splitMinus
  split
  · exact ⟨true, _, rfl, rfl⟩
  · exact ⟨false, _, rfl, rfl⟩

private theorem fractionText_of_scanFraction? {cs behind : List Char}
    {fraction : Option (List Char)}
    {width : Nat} (scanned : scanFraction? cs = some (fraction, behind, width)) :
    ∃ source, cs = source ++ behind ∧ width = source.length ∧ FractionText fraction source := by
  unfold scanFraction? at scanned
  split at scanned
  · rename_i rest
    obtain ⟨digits, after, rfl, all, stops⟩ := exists_run Char.isDigit rest
    obtain ⟨taken, left⟩ := run_split all stops
    simp only [taken, left] at scanned
    split at scanned
    · simp at scanned
    · rename_i some
      simp only [Option.some.injEq, Prod.mk.injEq] at scanned
      obtain ⟨rfl, rfl, rfl⟩ := scanned
      exact ⟨'.' :: digits, rfl, Nat.add_comm .., .present ⟨some, all⟩⟩
  · simp only [Option.some.injEq, Prod.mk.injEq] at scanned
    obtain ⟨rfl, rfl, rfl⟩ := scanned
    exact ⟨[], rfl, rfl, .absent⟩

private theorem exponentText_of_scanScale? {cs : List Char} {exponent : Option Int} {width : Nat}
    (scanned : scanScale? cs = some (exponent, width)) :
    ∃ source after, cs = source ++ after ∧ width = source.length ∧ ExponentText exponent source := by
  have marked {mark : Char} {rest : List Char} (marks : mark = 'e' ∨ mark = 'E')
      (scaled : (scanExponent? rest).map (fun (exponent, taken) => (some exponent, taken)) =
        some (exponent, width)) :
      ∃ source after, mark :: rest = source ++ after ∧ width = source.length ∧
        ExponentText exponent source := by
    obtain ⟨⟨power, taken⟩, found, same⟩ := Option.map_eq_some_iff.mp scaled
    simp only [Prod.mk.injEq] at same
    obtain ⟨rfl, rfl⟩ := same
    exact exponentText_of_scanExponent? found marks
  unfold scanScale? at scanned
  split at scanned
  · exact marked (.inl rfl) scanned
  · exact marked (.inr rfl) scanned
  · simp only [Option.some.injEq, Prod.mk.injEq] at scanned
    obtain ⟨rfl, rfl⟩ := scanned
    exact ⟨[], cs, rfl, rfl, .absent⟩

theorem numberText_of_scanNumber? {cs : List Char} {n : Option Number} {width : Nat}
    (scanned : scanNumber? cs = some (n, width)) :
    ∃ parts source after, cs = source ++ after ∧ width = source.length ∧
      n = parts.value? ∧ NumberText parts source := by
  obtain ⟨negative, behind, rfl, sign⟩ := exists_minus cs
  obtain ⟨whole, rest, rfl, all, stops⟩ := exists_run Char.isDigit behind
  obtain ⟨taken, left⟩ := run_split all stops
  rw [scanNumber?_eq, sign] at scanned
  simp only [taken, left] at scanned
  split at scanned
  · simp at scanned
  · rename_i valid
    obtain ⟨⟨fraction, behind, before⟩, point, scanned⟩ := Option.bind_eq_some_iff.mp scanned
    obtain ⟨⟨exponent, after⟩, mark, same⟩ := Option.map_eq_some_iff.mp scanned
    obtain ⟨decimals, rfl, rfl, isFraction⟩ := fractionText_of_scanFraction? point
    obtain ⟨scale, behind, rfl, rfl, isExponent⟩ := exponentText_of_scanScale? mark
    obtain ⟨rfl, rfl⟩ := Prod.mk.inj same
    have isDigits : IsDigits whole := ⟨fun empty => valid (.inl empty), all⟩
    have proper : whole.head? = some '0' → whole.length = 1 := fun leading =>
      not_not.mp fun long => valid (.inr ⟨leading, long⟩)
    refine ⟨_, _, behind, ?_, ?_, rfl, .mk isDigits proper isFraction isExponent⟩
    · simp
    · cases negative with
      | true => simp; omega
      | false => simp; omega

theorem NumberText.exists_cons {parts : NumberParts} {source : List Char}
    (written : NumberText parts source) :
    ∃ c rest, source = c :: rest ∧ (c.isDigit = true ∨ c = '-') := by
  obtain @⟨negative, whole, point, mark, _, _, isDigits, _, _, _⟩ := written
  obtain ⟨c, rest, rfl⟩ := List.exists_cons_of_ne_nil isDigits.ne_nil
  cases negative with
  | true => exact ⟨'-', _, rfl, .inr rfl⟩
  | false => exact ⟨c, _, rfl, .inl (isDigits.all c (.head _))⟩

private theorem gather_of_le {digits : List Char} {sum : Nat}
    (fits : Nat.ofDigitChars 10 digits sum ≤ largestDigits) :
    gather sum digits = (Nat.ofDigitChars 10 digits sum, 0) := by
  induction digits generalizing sum with
  | nil => simp [gather]
  | cons c digits ih =>
    rw [Nat.ofDigitChars_cons] at fits ⊢
    have grows := @Nat.ofDigitChars_eq_ofDigitChars_zero digits (10 * sum + (c.toNat - '0'.toNat))
    have positive : 0 < 10 ^ digits.length := Nat.pow_pos (by decide)
    have least := Nat.le_mul_of_pos_left (10 * sum + (c.toNat - '0'.toNat)) positive
    rw [gather, if_neg (by omega), ih fits]

/-- Only zero is written with a zero in front. -/
theorem eq_zero_of_head?_natDigits {n : Nat} (leading : (natDigits n).head? = some '0') : n = 0 := by
  induction n using Nat.strongRecOn with
  | ind n ih =>
    by_cases small : n < 10
    · simpa [natDigits, Nat.toDigits_of_lt_base small] using leading
    · have split : natDigits n = natDigits (n / 10) ++ [Nat.digitChar (n % 10)] :=
        Nat.toDigits_of_base_le (by decide) (by omega)
      rw [split, List.head?_append_of_ne_nil _ (natDigits_ne_nil _)] at leading
      have zero := ih (n / 10) (by omega) leading
      omega

theorem gather_natDigits {n : Nat} (fits : n ≤ largestDigits) : gather 0 (natDigits n) = (n, 0) := by
  have value := digitsValue_natDigits n
  rw [gather_of_le, ← digitsValue, value]
  rwa [← digitsValue, value]

private theorem value?_natDigits {n : Nat} (fits : n ≤ largestDigits) :
    NumberParts.value? ⟨false, natDigits n, none, none⟩ = some (.integer n) := by
  simp [NumberParts.value?, gather_natDigits fits]

private theorem value?_negative {n : Nat} (positive : 0 < n) (fits : n ≤ 0x8000000000000000) :
    NumberParts.value? ⟨true, natDigits n, none, none⟩ = some (.integer (-n)) := by
  have large : 0x8000000000000000 ≤ largestDigits := by decide
  simp [NumberParts.value?, gather_natDigits (fits.trans large), positive, fits]

theorem numberText_intDigits (n : Int) :
    NumberText ⟨decide (n < 0), natDigits n.natAbs, none, none⟩ (intDigits n) := by
  have isDigits : IsDigits (natDigits n.natAbs) :=
    ⟨natDigits_ne_nil _, fun _ => isDigit_of_mem_natDigits⟩
  have proper : (natDigits n.natAbs).head? = some '0' → (natDigits n.natAbs).length = 1 := by
    intro leading
    rw [eq_zero_of_head?_natDigits leading]
    rfl
  have written : NumberText ⟨decide (n < 0), natDigits n.natAbs, none, none⟩ _ :=
    .mk isDigits proper .absent .absent
  by_cases negative : n < 0 <;> simpa [intDigits, negative] using written

theorem value?_intDigits {n : Int} (low : -0x8000000000000000 ≤ n) (high : n ≤ largestDigits) :
    NumberParts.value? ⟨decide (n < 0), natDigits n.natAbs, none, none⟩ = some (.integer n) := by
  by_cases negative : n < 0
  · have back : -(n.natAbs : Int) = n := by omega
    rw [decide_eq_true negative, value?_negative (by omega) (by omega), back]
  · have back : (n.natAbs : Int) = n := by omega
    rw [decide_eq_false negative, value?_natDigits (by omega), back]

end PullQuery.Json
