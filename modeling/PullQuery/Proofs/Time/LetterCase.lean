import PullQuery.Proofs.Text.LowerCase
import PullQuery.Time.Reading
import Mathlib.Data.List.TakeWhile

/-! Dates and letter case. The letters in a time may be small or capital, and no other character of a date
has a lower case of its own or is one, so two texts with the same lower case name the same instant. -/
namespace PullQuery.Time
open Text

/-- The ranges of the characters that stand in dates and times, and around them. -/
def dateRanges : RangeTable :=
  blankTable ++ [(0x2b, 0x2b), (0x2d, 0x2e), (0x30, 0x3a), (0x54, 0x54), (0x5a, 0x5a), (0x74, 0x74),
    (0x7a, 0x7a), (0x2212, 0x2212)]

def isDateCode (code : Nat) : Bool := dateRanges.any fun range => range.1 ≤ code && code ≤ range.2

def isDateChar (c : Char) : Bool := isDateCode c.toNat

def IsDateText (cs : List Char) : Prop := ∀ c ∈ cs, isDateChar c = true

private theorem isDateChar_of_isBlank {c : Char} (blank : isBlank c = true) :
    isDateChar c = true := by
  obtain ⟨range, listed, low, high⟩ := RangeTable.exists_of_holds blank
  refine List.any_eq_true.mpr ⟨range, List.mem_append_left _ listed, ?_⟩
  simp [low, high]

private theorem isDateChar_of_isDigit {c : Char} (digit : c.isDigit = true) :
    isDateChar c = true := by
  have bounds : 0x30 ≤ c.toNat ∧ c.toNat ≤ 0x39 := by
    simpa [Char.isDigit, UInt32.le_iff_toNat_le] using digit
  refine List.any_eq_true.mpr ⟨(0x30, 0x3a), by decide, ?_⟩
  simp only [Bool.and_eq_true, decide_eq_true_eq]
  omega

def small (c : Char) : Char := if c = 'T' then 't' else if c = 'Z' then 'z' else c

private theorem small_cases (c : Char) : c = 'T' ∨ c = 'Z' ∨ small c = c := by
  unfold small
  split_ifs with first second
  · exact .inl first
  · exact .inr (.inl second)
  · exact .inr (.inr rfl)

theorem small_eq_iff {c d : Char} (plain : d ∉ ['T', 't', 'Z', 'z']) : small c = d ↔ c = d := by
  obtain rfl | rfl | same := small_cases c
  · constructor <;> rintro rfl <;> simp [small] at plain
  · constructor <;> rintro rfl <;> simp [small] at plain
  · rw [same]

private theorem isDigit_small (c : Char) : (small c).isDigit = c.isDigit := by
  obtain rfl | rfl | same := small_cases c
  · rfl
  · rfl
  · rw [same]

private theorem isBlank_small (c : Char) : isBlank (small c) = isBlank c := by
  obtain rfl | rfl | same := small_cases c
  · rfl
  · rfl
  · rw [same]

private theorem small_of_isDigit {c : Char} (digit : c.isDigit = true) : small c = c := by
  obtain rfl | rfl | same := small_cases c
  · simp at digit
  · simp at digit
  · exact same

private theorem skipBlanks_small (cs : List Char) :
    skipBlanks (cs.map small) = (skipBlanks cs).map small := by
  have blanks : isBlank ∘ small = isBlank := funext isBlank_small
  rw [skipBlanks, List.dropWhile_map, blanks, skipBlanks]

private theorem isDateText_of_skipBlanks {cs : List Char} (dates : IsDateText (skipBlanks cs)) :
    IsDateText cs := by
  intro c member
  rw [← List.takeWhile_append_dropWhile (p := isBlank) (l := cs)] at member
  rcases List.mem_append.mp member with blank | rest
  · exact isDateChar_of_isBlank (List.mem_takeWhile_imp blank)
  · exact dates c rest

private theorem isDateText_of_digits {digits cs : List Char} (front : digits <+: cs)
    (all : ∀ c ∈ digits, c.isDigit = true) (dates : IsDateText (cs.drop digits.length)) :
    IsDateText cs := by
  obtain ⟨rest, rfl⟩ := front
  rw [List.drop_left] at dates
  exact List.forall_mem_append.mpr ⟨fun c member => isDateChar_of_isDigit (all c member), dates⟩

/-- A reader for which the case of letters does not matter, but for what `fold` does to the result, and
that reads only characters of dates in front of the rest that the result leaves. -/
structure Reads {β : Type} (fold : β → β) (rest : β → List Char) (read : List Char → Option β) : Prop where
  small : ∀ cs, read (cs.map small) = (read cs).map fold
  dates : ∀ cs found, read cs = some found → IsDateText (rest found) → IsDateText cs

abbrev ReadsFront {α : Type} (read : List Char → Option (α × List Char)) : Prop :=
  Reads (Prod.map id (List.map small)) Prod.snd read

abbrev Skips (read : List Char → Option (List Char)) : Prop := Reads (List.map small) id read

abbrev ReadsWhole {α : Type} (read : List Char → Option α) : Prop := Reads id (fun _ => []) read

section Composition
variable {α β : Type} {fold : β → β} {rest : β → List Char}

theorem ReadsFront.bind {read : List Char → Option (α × List Char)} {next : α × List Char → Option β}
    (front : ReadsFront read) (behind : ∀ a, Reads fold rest fun cs => next (a, cs)) :
    Reads fold rest fun cs => (read cs).bind next where
  small cs := by
    rw [front.small]
    cases read cs with
    | none => rfl
    | some found => exact (behind found.1).small found.2
  dates cs b found dates := by
    obtain ⟨⟨a, left⟩, first, second⟩ := Option.bind_eq_some_iff.mp found
    exact front.dates cs _ first ((behind a).dates left b second dates)

theorem Skips.bind {read : List Char → Option (List Char)} {next : List Char → Option β}
    (skips : Skips read) (behind : Reads fold rest next) :
    Reads fold rest fun cs => (read cs).bind next where
  small cs := by
    rw [skips.small]
    cases read cs with
    | none => rfl
    | some left => exact behind.small left
  dates cs b found dates := by
    obtain ⟨left, first, second⟩ := Option.bind_eq_some_iff.mp found
    exact skips.dates cs left first (behind.dates left b second dates)

private theorem readsFront_some (value : α) : ReadsFront fun cs => some (value, cs) where
  small _ := rfl
  dates _ _ found dates := by
    obtain rfl := Option.some.inj found
    exact dates

private theorem reads_none : Reads fold rest fun _ => none where
  small _ := rfl
  dates _ _ found := by simp at found

theorem readsWhole_end (value : Option α) : ReadsWhole fun cs => if cs = [] then value else none where
  small cs := by simp
  dates cs a found _ := by
    obtain ⟨rfl, -⟩ := Option.ite_none_right_eq_some.mp found
    simp [IsDateText]

private theorem ReadsWhole.eq {read : List Char → Option α} (whole : ReadsWhole read)
    (cs : List Char) :
    read (cs.map Time.small) = read cs := by
  rw [whole.small, Option.map_id]
  rfl

private theorem ReadsWhole.isDateText {read : List Char → Option α} (whole : ReadsWhole read)
    {cs : List Char} {a : α} (found : read cs = some a) : IsDateText cs :=
  whole.dates cs a found (by simp [IsDateText])

end Composition

section Readers

private theorem takeWhile_isDigit_small (cs : List Char) :
    (cs.map small).takeWhile Char.isDigit = cs.takeWhile Char.isDigit := by
  induction cs with
  | nil => rfl
  | cons c cs ih =>
    rw [List.map_cons, List.takeWhile_cons, List.takeWhile_cons, isDigit_small, ih]
    split
    · rename_i digit
      rw [small_of_isDigit digit]
    · rfl

private theorem readsFront_digits (least most : Nat) : ReadsFront (readDigits? least most) where
  small cs := by
    simp only [readDigits?, ← List.map_take, takeWhile_isDigit_small, ← List.map_drop]
    split <;> rfl
  dates cs _ found dates := by
    rw [readDigits?] at found
    split at found
    · simp at found
    · obtain rfl := Option.some.inj found
      refine isDateText_of_digits ?_ (fun c member => List.mem_takeWhile_imp member) dates
      exact (List.takeWhile_prefix _).trans (List.take_prefix _ _)

private theorem skips_char {c : Char} (plain : c ∉ ['T', 't', 'Z', 'z'])
    (date : isDateChar c = true) :
    Skips (readChar? c) where
  small cs := by
    cases cs with
    | nil => rfl
    | cons d cs =>
      rw [List.map_cons, readChar?, readChar?]
      simp only [small_eq_iff plain]
      split <;> rfl
  dates cs _ found dates := by
    cases cs with
    | nil => simp [readChar?] at found
    | cons d cs =>
      obtain ⟨rfl, same⟩ := Option.ite_none_right_eq_some.mp found
      obtain rfl := Option.some.inj same
      exact List.forall_mem_cons.mpr ⟨date, dates⟩

private theorem skips_dateEnd : Skips readDateEnd? where
  small cs := by
    cases cs with
    | nil => rfl
    | cons c cs =>
      obtain rfl | rfl | same := small_cases c
      · rfl
      · rfl
      · rw [List.map_cons, same]
        unfold readDateEnd?
        split <;> simp_all
  dates cs _ found dates := by
    unfold readDateEnd? at found
    split at found <;> cases found <;> exact List.forall_mem_cons.mpr ⟨by decide, dates⟩

private theorem readsFront_fraction : ReadsFront readFraction? where
  small cs := by
    cases cs with
    | nil => rfl
    | cons c cs =>
      obtain rfl | rfl | same := small_cases c
      · rfl
      · rfl
      · rw [List.map_cons, same]
        by_cases point : c = '.'
        · subst point
          simp only [readFraction?, takeWhile_isDigit_small, ← List.map_drop]
          split <;> rfl
        · simp [readFraction?, point, same]
  dates cs _ found dates := by
    unfold readFraction? at found
    split at found
    · rename_i behind
      dsimp only at found
      split at found
      · simp at found
      · obtain rfl := Option.some.inj found
        have digits := isDateText_of_digits (List.takeWhile_prefix _)
          (fun c member => List.mem_takeWhile_imp member) dates
        exact List.forall_mem_cons.mpr ⟨by decide, digits⟩
    · obtain rfl := Option.some.inj found
      exact dates

private theorem readsFront_offsetSign : ReadsFront readOffsetSign? where
  small cs := by
    cases cs with
    | nil => rfl
    | cons c cs =>
      obtain rfl | rfl | same := small_cases c
      · rfl
      · rfl
      · rw [List.map_cons, same]
        unfold readOffsetSign?
        split <;> simp_all
  dates cs _ found dates := by
    unfold readOffsetSign? at found
    split at found <;> cases found <;> exact List.forall_mem_cons.mpr ⟨by decide, dates⟩

private def readSigned? (cs : List Char) : Option (Int × List Char) := do
  let (behind, rest) ← readOffsetSign? cs
  let (hours, rest) ← readDigits? 2 2 rest
  let rest ← readChar? ':' rest
  let (minutes, rest) ← readDigits? 2 2 rest
  if 59 < minutes then none
  let offset : Int := hours * 3600 + minutes * 60
  return (if behind then -offset else offset, rest)

private theorem readsFront_signed : ReadsFront readSigned? := by
  have colon : Skips (readChar? ':') := skips_char (by decide) (by decide)
  refine readsFront_offsetSign.bind fun behind => ?_
  refine (readsFront_digits 2 2).bind fun hours => colon.bind ?_
  refine (readsFront_digits 2 2).bind fun minutes => ?_
  by_cases large : 59 < minutes
  · simp only [if_pos large]
    exact reads_none
  · simp only [if_neg large]
    exact readsFront_some _

private theorem readOffset?_cons (c : Char) (cs : List Char) :
    readOffset? (readChar? ':') (c :: cs) =
      if small c = 'z' then some (0, cs) else readSigned? (c :: cs) := by
  obtain rfl | rfl | same := small_cases c
  · rfl
  · rfl
  · rw [same]
    split
    · rename_i letter
      rw [letter]
      rfl
    · rename_i other
      have capital : c ≠ 'Z' := by
        rintro rfl
        simp [small] at same
      rw [readOffset?]
      · rfl
      · simp [capital]
      · simp [other]

private theorem small_small (c : Char) : small (small c) = small c := by
  obtain rfl | rfl | same := small_cases c
  · rfl
  · rfl
  · rw [same, same]

private theorem readsFront_offset : ReadsFront (readOffset? (readChar? ':')) where
  small cs := by
    cases cs with
    | nil => rfl
    | cons c cs =>
      rw [List.map_cons, readOffset?_cons, readOffset?_cons, small_small, ← List.map_cons,
        readsFront_signed.small]
      split <;> rfl
  dates cs _ found dates := by
    cases cs with
    | nil => simp [IsDateText]
    | cons c cs =>
      rw [readOffset?_cons] at found
      split at found
      · rename_i letter
        obtain rfl := Option.some.inj found
        refine List.forall_mem_cons.mpr ⟨?_, dates⟩
        obtain rfl | rfl | same := small_cases c
        · simp [small] at letter
        · decide
        · rw [← same, letter]
          decide
      · exact readsFront_signed.dates _ _ found dates

private theorem readsWhole_strict : ReadsWhole readStrict? := by
  have hyphen : Skips (readChar? '-') := skips_char (by decide) (by decide)
  have colon : Skips (readChar? ':') := skips_char (by decide) (by decide)
  refine (readsFront_digits 4 4).bind fun year => hyphen.bind ?_
  refine (readsFront_digits 2 2).bind fun month => hyphen.bind ?_
  refine (readsFront_digits 2 2).bind fun day => skips_dateEnd.bind ?_
  refine (readsFront_digits 2 2).bind fun hour => colon.bind ?_
  refine (readsFront_digits 2 2).bind fun minute => colon.bind ?_
  refine (readsFront_digits 2 2).bind fun second => readsFront_fraction.bind fun nanos => ?_
  exact readsFront_offset.bind fun offset => readsWhole_end _

private theorem readsFront_allDigits : ReadsFront fun cs => readDigits? 1 cs.length cs where
  small cs := by
    rw [List.length_map]
    exact (readsFront_digits 1 cs.length).small cs
  dates cs := (readsFront_digits 1 cs.length).dates cs

private def readNextYear? : List Char → Option (Int × List Char)
  | '-' :: rest => (readDigits? 1 rest.length rest).bind fun (year, rest) => some (-(year : Int), rest)
  | '+' :: rest => (readDigits? 1 rest.length rest).bind fun (year, rest) => some ((year : Int), rest)
  | rest => (readDigits? 1 4 rest).bind fun (year, rest) => some ((year : Int), rest)

private theorem readYear?_eq (cs : List Char) : readYear? cs = readNextYear? (skipBlanks cs) := rfl

private theorem readsFront_nextYear : ReadsFront readNextYear? := by
  have negative : ReadsFront fun cs => (readDigits? 1 cs.length cs).bind fun found =>
      some (-(found.1 : Int), found.2) :=
    readsFront_allDigits.bind fun year => readsFront_some (-(year : Int))
  have positive : ReadsFront fun cs => (readDigits? 1 cs.length cs).bind fun found =>
      some ((found.1 : Int), found.2) :=
    readsFront_allDigits.bind fun year => readsFront_some (year : Int)
  have plain : ReadsFront fun cs => (readDigits? 1 4 cs).bind fun found =>
      some ((found.1 : Int), found.2) :=
    (readsFront_digits 1 4).bind fun year => readsFront_some (year : Int)
  constructor
  · intro cs
    rcases cs with _ | ⟨c, cs⟩
    · rfl
    obtain rfl | rfl | same := small_cases c
    · exact plain.small ('T' :: cs)
    · exact plain.small ('Z' :: cs)
    · by_cases hyphen : c = '-'
      · subst hyphen
        exact negative.small cs
      by_cases plus : c = '+'
      · subst plus
        exact positive.small cs
      have alone (rest : List Char) : readNextYear? (c :: rest) =
          (readDigits? 1 4 (c :: rest)).bind fun found => some ((found.1 : Int), found.2) := by
        simp [readNextYear?, hyphen, plus]
      rw [List.map_cons, same, alone, alone, ← plain.small, List.map_cons, same]
  · intro cs _ found dates
    unfold readNextYear? at found
    split at found
    · exact List.forall_mem_cons.mpr ⟨by decide, negative.dates _ _ found dates⟩
    · exact List.forall_mem_cons.mpr ⟨by decide, positive.dates _ _ found dates⟩
    · exact plain.dates _ _ found dates

private theorem readsFront_year : ReadsFront readYear? where
  small cs := by rw [readYear?_eq, skipBlanks_small, readsFront_nextYear.small, readYear?_eq]
  dates cs _ found dates := isDateText_of_skipBlanks (readsFront_nextYear.dates _ _ found dates)

private theorem readsFront_part : ReadsFront readPart? where
  small cs := by rw [readPart?, skipBlanks_small, (readsFront_digits 1 2).small, readPart?]
  dates cs _ found dates := isDateText_of_skipBlanks ((readsFront_digits 1 2).dates _ _ found dates)

private theorem readsWhole_date : ReadsWhole readDate? := by
  have hyphen : Skips (readChar? '-') := skips_char (by decide) (by decide)
  refine readsFront_year.bind fun year => hyphen.bind ?_
  refine readsFront_part.bind fun month => hyphen.bind ?_
  exact readsFront_part.bind fun day => readsWhole_end _

theorem readsWhole_trimmed :
    ReadsWhole fun cs => (readStrict? (trimBlanks cs)).orElse fun _ => readDate? (trimBlanks cs) where
  small cs := by
    have trimmed : trimBlanks (cs.map small) = (trimBlanks cs).map small := by
      rw [trimBlanks, skipBlanks_small, ← List.map_reverse, skipBlanks_small, ← List.map_reverse, trimBlanks]
    rw [trimmed, readsWhole_strict.eq, readsWhole_date.eq, Option.map_id]
    rfl
  dates cs _ found _ := by
    have dates : IsDateText (trimBlanks cs) := by
      cases strict : readStrict? (trimBlanks cs) with
      | some _ => exact readsWhole_strict.isDateText strict
      | none =>
        rw [strict] at found
        exact readsWhole_date.isDateText found
    have reversed : IsDateText (skipBlanks (skipBlanks cs).reverse) :=
      fun c member => dates c (List.mem_reverse.mpr member)
    exact isDateText_of_skipBlanks fun c member =>
      isDateText_of_skipBlanks reversed c (List.mem_reverse.mpr member)

end Readers

section LowerCase

private theorem lowerChar_eq_small {c : Char} (date : isDateChar c = true) :
    lowerChar c = [small c] := by
  have checked : dateRanges.all fun range =>
      (List.range' range.1 (range.2 + 1 - range.1)).all fun code =>
        lowerChar (.ofNat code) == [small (.ofNat code)] := by decide +kernel
  obtain ⟨range, listed, bounds⟩ := List.any_eq_true.mp date
  have code : c.toNat ∈ List.range' range.1 (range.2 + 1 - range.1) := by
    simp only [Bool.and_eq_true, decide_eq_true_eq] at bounds
    rw [List.mem_range'_1]
    omega
  have same := List.all_eq_true.mp (List.all_eq_true.mp checked range listed) _ code
  rwa [Char.ofNat_toNat, beq_iff_eq] at same

theorem lowerCode_cases (runs : List CaseRun) (code : Nat) : lowerCode runs code = code ∨
    ∃ run ∈ runs, run.first ≤ code ∧ code ≤ run.last ∧ lowerCode runs code = (code + run.offset).toNat := by
  induction runs with
  | nil => exact .inl rfl
  | cons run rest ih =>
    rw [lowerCode]
    split_ifs with early within stride
    · exact .inl rfl
    · exact .inr ⟨run, .head _, by omega, within, rfl⟩
    · exact .inl rfl
    · obtain same | ⟨run, listed, bounds⟩ := ih
      · exact .inl same
      · exact .inr ⟨run, .tail _ listed, bounds⟩

theorem isDateCode_of_lowerCode {code : Nat} (date : isDateCode (lowerCode caseRuns code) = true) :
    isDateCode code = true := by
  obtain same | ⟨run, listed, low, high, same⟩ := lowerCode_cases caseRuns code
  · rwa [same] at date
  rw [same] at date
  have checked : caseRuns.all fun run => run.first = 0x41 ∧ run.last = 0x5a ∧ run.offset = 32 ∨
      0 ≤ run.first + run.offset ∧ dateRanges.all fun range =>
        run.last + run.offset < range.1 ∨ range.2 < run.first + run.offset := by
    decide +kernel
  obtain ⟨first, last, offset⟩ | ⟨positive, apart⟩ := of_decide_eq_true (List.all_eq_true.mp checked run listed)
  · have latin : (List.range' 0x41 26).all fun code => !isDateCode (code + 32) || isDateCode code := by
      decide
    have member : code ∈ List.range' 0x41 26 := by
      rw [List.mem_range'_1]
      omega
    have shifted : (code + run.offset).toNat = code + 32 := by omega
    rw [shifted] at date
    simpa [date] using List.all_eq_true.mp latin code member
  · obtain ⟨range, among, bounds⟩ := List.any_eq_true.mp date
    have beside := of_decide_eq_true (List.all_eq_true.mp apart range among)
    simp only [Bool.and_eq_true, decide_eq_true_eq] at bounds
    omega

private theorem isDateChar_of_lowerChar {c : Char} (dates : IsDateText (lowerChar c)) :
    isDateChar c = true := by
  rw [lowerChar] at dates
  split at dates
  · exact absurd (dates 'i' (.head _)) (by decide)
  · have date := dates _ (.head _)
    by_cases valid : (lowerCode caseRuns c.toNat).isValidChar
    · have same : (Char.ofNat (lowerCode caseRuns c.toNat)).toNat = lowerCode caseRuns c.toNat := by
        rw [Char.ofNat, dif_pos valid]
        rfl
      rw [isDateChar, same] at date
      exact isDateCode_of_lowerCode date
    · rw [Char.ofNat, dif_neg valid] at date
      exact absurd date (by decide)

/-- In small letters a text of such characters is the same but for the letters in times, whatever stands
before it. -/
theorem lowerAfter_of_dates {cs : List Char} (dates : IsDateText cs) (before : List Char) :
    lowerAfter before cs = cs.map small := by
  induction cs generalizing before with
  | nil => rfl
  | cons c cs ih =>
    obtain ⟨date, rest⟩ := List.forall_mem_cons.mp dates
    have plain : c ≠ 'Σ' := by
      rintro rfl
      exact absurd date (by decide)
    rw [lowerAfter, if_neg plain, lowerChar_eq_small date, ih rest]
    rfl

/-- No other text becomes one of such characters in small letters. -/
theorem dates_of_lowerAfter {before cs : List Char} (dates : IsDateText (lowerAfter before cs)) :
    IsDateText cs := by
  induction cs generalizing before with
  | nil => simp [IsDateText]
  | cons c cs ih =>
    rw [lowerAfter] at dates
    obtain ⟨first, rest⟩ := List.forall_mem_append.mp dates
    refine List.forall_mem_cons.mpr ⟨?_, ih rest⟩
    split at first
    · have small := first _ (.head _)
      split at small <;> exact absurd small (by decide)
    · exact isDateChar_of_lowerChar first

private theorem isDateText_small {cs : List Char} (dates : IsDateText cs) :
    IsDateText (cs.map small) := by
  intro c member
  obtain ⟨d, listed, rfl⟩ := List.mem_map.mp member
  obtain rfl | rfl | same := small_cases d
  · decide
  · decide
  · rw [same]
    exact dates d listed

private theorem readInstant?_some_of_lower {s t : String} (same : lower s = lower t)
    {instant : Instant}
    (found : readInstant? s = some instant) : readInstant? t = some instant := by
  have letters : lowerAfter [] s.toList = lowerAfter [] t.toList := String.ofList_injective same
  have first := readsWhole_trimmed.isDateText found
  have smalls := lowerAfter_of_dates first []
  have second : IsDateText t.toList := dates_of_lowerAfter (letters ▸ smalls ▸ isDateText_small first)
  rw [lowerAfter_of_dates second, smalls] at letters
  have reads := readsWhole_trimmed.eq t.toList
  rw [← letters, readsWhole_trimmed.eq] at reads
  exact reads.symm.trans found

/-- Texts with the same lower case name the same instant, or both name none. -/
theorem readInstant?_of_lower {s t : String} (same : lower s = lower t) :
    readInstant? s = readInstant? t :=
  Option.ext fun _ => ⟨readInstant?_some_of_lower same, readInstant?_some_of_lower same.symm⟩

end LowerCase
end PullQuery.Time
