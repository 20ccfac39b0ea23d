import PullQuery.Proofs.Query.Durations

/-! How durations are written: a sign, digits with or without a fraction, and a spelling of the unit that
is the whole word behind the digits. There is one way to write what is read in front of a text. -/
namespace PullQuery.Query
open PullQuery.Text

theorem mem_spellings {word : List Char} {unit : TimeUnit}
    (spelled : TimeUnit.ofSpelling? word = some unit) : (word, unit) ∈ TimeUnit.spellings := by
  obtain ⟨⟨spelling, meant⟩, found, rfl⟩ := Option.map_eq_some_iff.mp spelled
  obtain rfl : spelling = word := by simpa using List.find?_some found
  exact List.mem_of_find?_eq_some found

theorem letters_of_unit {word : List Char} {unit : TimeUnit}
    (spelled : TimeUnit.ofSpelling? word = some unit) : ∀ c ∈ word, isAlphabetic c = true := by
  have all : TimeUnit.spellings.all (·.1.all Char.isAlpha) = true := by decide
  have letters := List.all_eq_true.mp (List.all_eq_true.mp all _ (mem_spellings spelled))
  exact fun c member => isAlphabetic_of_isAlpha (letters c member)

theorem ne_nil_of_unit {word : List Char} {unit : TimeUnit}
    (spelled : TimeUnit.ofSpelling? word = some unit) : word ≠ [] := by
  rintro rfl
  simp [TimeUnit.ofSpelling?, TimeUnit.spellings] at spelled

theorem isWordChar_of_isAlphabetic {c : Char} (letter : isAlphabetic c = true) :
    isWordChar c = true := by simp [isWordChar, letter]

namespace Duration

def sign (d : Duration) : List Char := if d.negative then ['-'] else []

def amount (d : Duration) : List Char := d.whole ++ d.fraction.elim [] ('.' :: ·)

def written (d : Duration) (word : List Char) : List Char := d.sign ++ (d.amount ++ word)

/-- The digits are digits of some script, at least one before the point and one behind it, and the word
spells the unit. -/
structure IsWritten (d : Duration) (word : List Char) : Prop where
  some : d.whole ≠ []
  whole : ∀ c ∈ d.whole, isDecimal c = true
  fraction : ∀ digits ∈ d.fraction, digits ≠ [] ∧ ∀ c ∈ digits, isDecimal c = true
  unit : TimeUnit.ofSpelling? word = .some d.unit

section Written
variable {d : Duration} {word : List Char} (isWritten : d.IsWritten word)
include isWritten

theorem IsWritten.exists_cons (rest : List Char) :
    ∃ c more, isDecimal c = true ∧ d.amount ++ rest = c :: more := by
  obtain ⟨c, more, whole⟩ := List.exists_cons_of_ne_nil isWritten.some
  have decimal := isWritten.whole c (by simp [whole])
  exact ⟨c, more ++ (d.fraction.elim [] ('.' :: ·) ++ rest), decimal, by simp [amount, whole]⟩

private theorem IsWritten.startsWord (rest : List Char) :
    ∀ c ∈ (word ++ rest).head?, isDecimal c = false ∧ c ≠ '.' := by
  obtain ⟨c, more, rfl⟩ := List.exists_cons_of_ne_nil (ne_nil_of_unit isWritten.unit)
  intro d first
  obtain rfl : c = d := by simpa using first
  have letter := letters_of_unit isWritten.unit c (.head _)
  refine ⟨?_, ?_⟩
  · cases decimal : isDecimal c with
    | false => rfl
    | true => simp [isAlphabetic_of_isDecimal decimal] at letter
  · rintro rfl
    revert letter
    decide

theorem IsWritten.unsigned_written (rest : List Char) :
    unsigned (d.written word ++ rest) = d.amount ++ (word ++ rest) ∧
      ((d.written word ++ rest).head? == .some '-') = d.negative := by
  obtain ⟨c, more, decimal, first⟩ := isWritten.exists_cons (word ++ rest)
  have plain : c ≠ '-' := by
    rintro rfl
    revert decimal
    decide
  have split : d.written word ++ rest = d.sign ++ (d.amount ++ (word ++ rest)) := by simp [written]
  rw [split, sign]
  cases d.negative with
  | true => exact ⟨rfl, rfl⟩
  | false => exact ⟨unsigned_plain (by simpa [first] using plain), by simpa [first] using plain⟩

theorem IsWritten.number (rest : List Char) :
    (d.amount ++ (word ++ rest)).takeWhile isDecimal = d.whole ∧
      decimals ((d.amount ++ (word ++ rest)).dropWhile isDecimal) = d.fraction.getD [] ∧
      behindNumber (d.amount ++ (word ++ rest)) = word ++ rest := by
  have begins := isWritten.startsWord rest
  have split : d.amount ++ (word ++ rest) =
      d.whole ++ (d.fraction.elim [] ('.' :: ·) ++ (word ++ rest)) := by simp [amount]
  rw [split]
  unfold behindNumber
  cases fraction : d.fraction with
  | none =>
    obtain ⟨taken, dropped⟩ := run_split isWritten.whole fun c first => (begins c first).1
    have none : decimals (word ++ rest) = [] := decimals_plain fun point => (begins '.' point).2 rfl
    simp [taken, dropped, none]
  | some digits =>
    obtain ⟨some, all⟩ := isWritten.fraction digits fraction
    have point : StopsRun isDecimal ('.' :: (digits ++ (word ++ rest))) := by
      intro c first
      obtain rfl : '.' = c := by simpa using first
      decide
    obtain ⟨taken, dropped⟩ := run_split isWritten.whole point
    have read : decimals ('.' :: (digits ++ (word ++ rest))) = digits :=
      (run_split all fun c first => (begins c first).1).1
    simp [taken, dropped, read, some]

/-- What a duration is written as is read as the duration in front of a text that does not go on with its
word. -/
theorem IsWritten.scan? {rest : List Char} (ends : StopsRun isWordChar rest) :
    scan? (d.written word ++ rest) = .some (d, (d.written word).length) := by
  obtain ⟨body, signed⟩ := isWritten.unsigned_written rest
  obtain ⟨whole, fraction, behind⟩ := isWritten.number rest
  have spelled := (run_split (fun c member =>
    isWordChar_of_isAlphabetic (letters_of_unit isWritten.unit c member)) ends).1
  have width : (d.written word ++ rest).length - (word ++ rest).length + word.length =
      (d.written word).length := by
    simp only [written, List.length_append]
    omega
  have again : (if (d.fraction.getD []).isEmpty then none else .some (d.fraction.getD [])) =
      d.fraction := by
    cases fraction : d.fraction with
    | none => rfl
    | some digits => simp [(isWritten.fraction digits fraction).1]
  unfold Duration.scan?
  simp only [body, signed, whole, fraction, behind, spelled, width, again, isWritten.unit]
  simp [isWritten.some]

theorem IsWritten.amount_char : ∀ c ∈ d.amount, c = '.' ∨ isDecimal c = true := by
  intro c member
  rcases List.mem_append.mp member with whole | tail
  · exact .inr (isWritten.whole c whole)
  · cases fraction : d.fraction with
    | none => simp [fraction] at tail
    | some digits =>
      rw [fraction, Option.elim_some] at tail
      exact (List.mem_cons.mp tail).imp_right ((isWritten.fraction digits fraction).2 c)

theorem IsWritten.ne_nil : d.written word ≠ [] := by
  have some := isWritten.some
  simp [written, amount, some]

theorem IsWritten.quoteFree : ∀ c ∈ d.written word, isQuote c = false := by
  have found := @IsWritten.scan? _ _ isWritten [] (by simp [StopsRun])
  obtain ⟨source, rest, split, -, size, plain⟩ := scan?_split found
  obtain ⟨rfl, -⟩ := List.append_inj split size.symm
  exact plain

end Written
end Duration

private theorem sign_split (cs : List Char) :
    cs = (if cs.head? == some '-' then ['-'] else []) ++ Duration.unsigned cs := by
  by_cases sign : cs.head? = some '-'
  · obtain ⟨rest, rfl⟩ := List.head?_eq_some_iff.mp sign
    rfl
  · simp [Duration.unsigned_plain sign, sign]

def readFraction? (cs : List Char) : Option (List Char) :=
  if (Duration.decimals cs).isEmpty then none else some (Duration.decimals cs)

private theorem readFraction?_digits {cs digits : List Char}
    (read : readFraction? cs = some digits) :
    digits ≠ [] ∧ ∀ c ∈ digits, isDecimal c = true := by
  unfold readFraction? at read
  split at read
  · simp at read
  · rename_i some
    obtain rfl := Option.some.inj read
    refine ⟨by simpa using some, ?_⟩
    unfold Duration.decimals
    split
    · exact fun c member => List.mem_takeWhile_imp member
    · simp

theorem number_split (cs : List Char) :
    cs = cs.takeWhile isDecimal ++ ((readFraction? (cs.dropWhile isDecimal)).elim [] ('.' :: ·) ++
      Duration.behindNumber cs) := by
  refine List.takeWhile_append_dropWhile.symm.trans (congrArg _ ?_)
  unfold readFraction? Duration.behindNumber
  simp only
  split
  · rfl
  · rename_i some
    generalize cs.dropWhile isDecimal = rest at some ⊢
    obtain ⟨rest, rfl⟩ : ∃ more, rest = '.' :: more := by
      unfold Duration.decimals at some
      split at some
      · exact ⟨_, rfl⟩
      · simp at some
    obtain ⟨digits, more, rfl, all, ends⟩ := exists_run isDecimal rest
    have read : Duration.decimals ('.' :: (digits ++ more)) = digits := (run_split all ends).1
    simp [read]

/-- What is read in front of a text is there as it is written, and its word ends with it. -/
theorem exists_written {cs : List Char} {d : Duration} {width : Nat}
    (found : Duration.scan? cs = some (d, width)) :
    ∃ word rest, cs = d.written word ++ rest ∧ (d.written word).length = width ∧ d.IsWritten word ∧
      StopsRun isWordChar rest := by
  obtain ⟨word, rest, behind, letters, ends⟩ :=
    exists_run isWordChar (Duration.behindNumber (Duration.unsigned cs))
  have spelled := (run_split letters ends).1
  have signed := sign_split cs
  have body := number_split (Duration.unsigned cs)
  rw [behind] at body
  unfold Duration.scan? at found
  simp only [behind, spelled] at found
  split at found
  · simp at found
  · rename_i some
    obtain ⟨unit, means, made⟩ := Option.map_eq_some_iff.mp found
    obtain ⟨same, size⟩ := Prod.mk.inj made
    have isWritten : d.IsWritten word := by
      rw [← same]
      exact ⟨by simpa using some, fun c member => List.mem_takeWhile_imp member,
        fun digits read => readFraction?_digits read, means⟩
    have split : cs = d.written word ++ rest := by
      rw [Duration.written, List.append_assoc, List.append_assoc, Duration.amount, List.append_assoc,
        ← same]
      exact signed.trans (congrArg _ body)
    refine ⟨word, rest, split, ?_, isWritten, ends⟩
    have length := congrArg List.length split
    simp only [Duration.written, List.length_append] at length size ⊢
    omega

end PullQuery.Query
