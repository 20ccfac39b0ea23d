import PullQuery.Proofs.Query.PassedTokens

/-! The names of a text when its durations become seconds. A name keeps its characters unless digits
are written for a duration directly behind a dollar or an at sign in it, and the text can still be
read unless digits that are no part of a name are written in front of a numeral that begins no
token. -/
namespace PullQuery.Query
open PullQuery.Number PullQuery.Text QuoteState Lexeme

/-- What becomes of the rest `run` of a name of which `c` was the last character: other characters of
a name, the same ones exactly if the name takes no digits from `c` on, and behind them a text that is
read again. -/
def RenamesRun (before : List Char) (c : Char) (run after : List Char) (cuts : List Cut) : Prop :=
  ∃ other out, replaceFrom durationRule (c :: before) 0 (run ++ after) = other ++ out ∧
    (∀ d ∈ other, isNamePart d = true) ∧ StopsRun isNamePart out ∧
    (other = run ∨ ∃ d ∈ other, d.isDigit = true) ∧
    (other = run ↔ takesDigits after (c :: run) = false) ∧
    Rereads (IsSound (c :: before) (run ++ after)) (looseNames none cuts) out

/-- The text is read again when its durations become seconds, unless what stands before it is a name
that takes digits at its front. -/
def RereadsText (cs : List Char) : Prop :=
  ∀ (before : List Char) (cuts : List Cut), Cuts cs cuts →
    outside.after before.reverse = outside →
    (before.head?.any isNameSign = true → writesDigits ⟨before, cs⟩ = false) →
    Rereads (IsSound before cs) (looseNames none cuts) (replaceFrom durationRule before 0 cs)

def RereadsRun (cs : List Char) : Prop :=
  ∀ (before : List Char) (c : Char) (run after : List Char) (cuts : List Cut), cs = run ++ after →
    (∀ d ∈ run, isNamePart d = true) → StopsRun isNamePart after → Cuts after cuts →
    isNamePart c = true ∨ c = '@' → outside.after (c :: before).reverse = outside →
    RenamesRun before c run after cuts

section Signs
variable {before : List Char} {c : Char}

private theorem mayFollow_of_isNamePart (part : isNamePart c = true) (other : c ≠ '$')
    (before : List Char) : mayFollow (c :: before) = false := by
  simp only [isNamePart, Bool.or_eq_true, beq_iff_eq, other, or_false] at part
  rcases part with known | rfl
  · simp [mayFollow, known]
  · simp [mayFollow]

theorem mayFollow_of_isAlphabetic (letter : isAlphabetic c = true) (before : List Char) :
    mayFollow (c :: before) = false := by simp [mayFollow, isAlphanumeric, letter]

theorem isNameSign_of_mayFollow (name : isNamePart c = true ∨ c = '@')
    (follows : mayFollow (c :: before) = true) : isNameSign c = true := by
  rcases name with part | rfl
  · by_cases sign : c = '$'
    · simp [isNameSign, sign]
    · simp [mayFollow_of_isNamePart part sign] at follows
  · rfl

private theorem isQuote_of_name (name : isNamePart c = true ∨ c = '@') : isQuote c = false := by
  rcases name with part | rfl
  · exact isQuote_of_isNamePart part
  · rfl

theorem conversionAt?_last (plain : isQuote c = false)
    (outer : outside.after (c :: before).reverse = outside) (cs : List Char) :
    conversionAt? ⟨c :: before, cs⟩ = conversionAt? ⟨[c], cs⟩ := by
  have alone : outside.after [c].reverse = outside := next_plain plain
  have same : mayFollow (c :: before) = mayFollow [c] := rfl
  simp only [conversionAt?, outer, alone, same]

private theorem writesDigits_of_none {place : Place} (none : conversionAt? place = none) :
    writesDigits place = false := by simp [writesDigits, none]

theorem takesDigits_append {init : List Char} (follows : ∀ d ∈ init, mayFollow [d] = false)
    (after more : List Char) : takesDigits after (init ++ more) = takesDigits after more := by
  induction init with
  | nil => rfl
  | cons d init ih =>
    have first := writesDigits_of_none (conversionAt?_of_not_mayFollow (follows d (.head _))
      (init ++ more ++ after))
    rw [List.cons_append, takesDigits, first, Bool.false_or,
      ih fun e member => follows e (.tail _ member)]

theorem looseNames_durationCuts {sign number word more after : List Char} {token : Token}
    (front : DurationFront sign number token word more after) (others : List Cut) :
    looseNames none (durationCuts sign number token word more after ++ others) =
      looseNames none others := by
  have number := front.isNumber
  have same : some (word ++ (more ++ after)) = some (word ++ more ++ after) := by simp
  unfold durationCuts
  rcases front.signed with rfl | rfl <;> cases token <;>
    simp_all [Token.isNumber, looseNames]

end Signs
section Runs
variable {before after : List Char} {c : Char} {cuts : List Cut}
  (name : isNamePart c = true ∨ c = '@') (outer : outside.after (c :: before).reverse = outside)

include name outer in
theorem renamesRun_end (ends : StopsRun isNamePart after)
    (digitless : writesDigits ⟨c :: before, after⟩ = false)
    (rereads : Rereads (IsSound (c :: before) after) (looseNames none cuts)
      (replaceFrom durationRule (c :: before) 0 after)) : RenamesRun before c [] after cuts := by
  refine ⟨[], _, rfl, by simp, ?_, .inl rfl, ?_, rereads⟩
  · rw [List.nil_append]
    cases found : conversionAt? ⟨c :: before, after⟩ with
    | none =>
      intro d first
      exact ends d (by rwa [head?_of_stays found] at first)
    | some conversion =>
      have negative : conversion.seconds < 0 := by simpa [writesDigits, found] using digitless
      obtain ⟨source, rest, rfl, some, width, -⟩ := exists_conversion found
      have minus : intDigits conversion.seconds = '-' :: natDigits conversion.seconds.natAbs :=
        if_pos negative
      rw [(converts some found width).1, minus]
      intro d first
      obtain rfl : '-' = d := by simpa using first
      decide
  · have same := conversionAt?_last (isQuote_of_name name) outer after
    have digits : writesDigits ⟨[c], after⟩ = false := by
      rw [← digitless, writesDigits, writesDigits, same]
    simp [takesDigits, digits]

omit name outer in
private theorem renamesRun_char {d : Char} {run : List Char} (part : isNamePart d = true)
    (none : Duration.scan? (d :: (run ++ after)) = none)
    (behind : RenamesRun (c :: before) d run after cuts) :
    RenamesRun before c (d :: run) after cuts := by
  obtain ⟨other, out, text, parts, ends, shape, same, rereads⟩ := behind
  have passes := passes_char none (c :: before)
  have first : writesDigits ⟨[c], d :: run ++ after⟩ = false :=
    writesDigits_of_none (by simp [conversionAt?, none])
  refine ⟨d :: other, out, ?_, ?_, ends, ?_, ?_, rereads.iff passes.sound⟩
  · exact passes.text.trans (congrArg (d :: ·) text)
  · simpa [part] using parts
  · rcases shape with rfl | ⟨e, member, digit⟩
    · exact .inl rfl
    · exact .inr ⟨e, .tail _ member, digit⟩
  · rw [takesDigits, first, Bool.false_or, ← same]
    simp

section Duration
variable {init more : List Char} {e : Char} (follows : ∀ d ∈ init, mayFollow [d] = false)
  (parts : ∀ d ∈ init ++ [e], isNamePart d = true)

include name outer follows parts in
private theorem renamesRun_passed {d : Duration}
    (scanned : Duration.scan? (init ++ [e] ++ (more ++ after)) = some (d, (init ++ [e]).length))
    (stays : conversionAt? ⟨c :: before, init ++ [e] ++ (more ++ after)⟩ = none)
    (behind : RenamesRun (init.reverse ++ c :: before) e more after cuts) :
    RenamesRun before c (init ++ e :: more) after cuts := by
  obtain ⟨other, out, text, others, ends, shape, same, rereads⟩ := behind
  have passes := passes_duration (by simp) scanned stays
  have first : writesDigits ⟨[c], init ++ e :: more ++ after⟩ = false := by
    refine writesDigits_of_none ?_
    rw [← conversionAt?_last (isQuote_of_name name) outer]
    simpa using stays
  refine ⟨init ++ e :: other, out, ?_, ?_, ends, ?_, ?_, ?_⟩
  · have whole : replaceFrom durationRule (c :: before) 0 (init ++ e :: more ++ after) =
        init ++ e :: replaceFrom durationRule (e :: (init.reverse ++ c :: before)) 0
          (more ++ after) := by simpa using passes.text
    rw [whole, text]
    simp
  · intro d member
    rcases List.mem_append.mp (by simpa using member : d ∈ init ++ [e] ++ other) with inside | behind
    · exact parts d inside
    · exact others d behind
  · rcases shape with rfl | ⟨d, member, digit⟩
    · exact .inl rfl
    · exact .inr ⟨d, by simp [member], digit⟩
  · rw [takesDigits, first, Bool.false_or, takesDigits_append follows, ← same]
    simp
  · refine rereads.iff ?_
    have sound := passes.sound
    simpa using sound

end Duration
/-- What stands for the rest of a name behind a letter does not begin with a character of a word unless
that rest does. -/
theorem RenamesRun.stopsWord {e : Char} {more other out : List Char} (letter : isAlphabetic e = true)
    (wordEnds : StopsRun isWordChar more) (ends : StopsRun isNamePart after)
    (text : replaceFrom durationRule (e :: before) 0 (more ++ after) = other ++ out)
    (others : ∀ d ∈ other, isNamePart d = true) : StopsRun isWordChar other := by
  have head := head?_of_stays
    (conversionAt?_of_not_mayFollow (mayFollow_of_isAlphabetic letter before) (more ++ after))
  intro d first
  have member : d ∈ other := List.mem_of_mem_head? first
  rw [text, List.head?_append_of_ne_nil _ (List.ne_nil_of_mem member),
    Option.mem_def.mp first] at head
  cases more with
  | nil =>
    have last : isNamePart d = false := ends d head.symm
    simp [others d member] at last
  | cons f more => exact wordEnds d (by simpa using head.symm)

include name outer in
theorem renamesRun_written {run init more behind : List Char} {e : Char} {rest : List Cut}
    (split : run ++ after = init ++ [e] ++ (more ++ behind)) {conversion : Conversion}
    (found : conversionAt? ⟨c :: before, run ++ after⟩ = some conversion)
    (width : conversion.width = (init ++ [e]).length) (digits : 0 ≤ conversion.seconds)
    (letter : isAlphabetic e = true) (wordEnds : StopsRun isWordChar more)
    (ends : StopsRun isNamePart behind) (same : looseNames none cuts = looseNames none rest)
    (differs : ∀ other, StopsRun isWordChar other →
      natDigits conversion.seconds.toNat ++ other ≠ run)
    (renames : RenamesRun (init.reverse ++ c :: before) e more behind rest) :
    RenamesRun before c run after cuts := by
  obtain ⟨other, out, text, others, stops, -, -, rereads⟩ := renames
  have writes : writesDigits ⟨c :: before, run ++ after⟩ = true := by
    simpa [writesDigits, found] using digits
  have sign : isNameSign c = true :=
    isNameSign_of_mayFollow name (conversionAt?_eq_some.mp found).2.2.2.1
  have whole : breaksName ⟨c :: before, run ++ after⟩ = false := by
    simp [breaksName, found, writes, sign]
  have digit : ∀ d ∈ natDigits conversion.seconds.toNat, d.isDigit = true := fun _ =>
    isDigit_of_mem_natDigits
  have stopsWord := RenamesRun.stopsWord letter wordEnds ends text others
  rw [split] at found whole
  obtain ⟨written, sound⟩ := converts (by simp) found width
  refine ⟨natDigits conversion.seconds.toNat ++ other, out, ?_, ?_, stops, ?_, ?_, ?_⟩
  · rw [split, written, intDigits_nonnegative digits, List.append_assoc, ← text]
    simp
  · intro d member
    rcases List.mem_append.mp member with first | last
    · exact isNamePart_of_isDigit (digit d first)
    · exact others d last
  · obtain ⟨d, rest, first⟩ := List.exists_cons_of_ne_nil (natDigits_ne_nil conversion.seconds.toNat)
    exact .inr ⟨d, by simp [first], digit d (by simp [first])⟩
  · have taken : writesDigits ⟨[c], run ++ after⟩ = true := by
      rw [← writes, writesDigits, writesDigits, conversionAt?_last (isQuote_of_name name) outer]
    simp [takesDigits, taken, differs other stopsWord]
  · rw [same, split]
    refine rereads.iff (sound.trans ?_)
    rw [whole]
    simp

private theorem exists_duration_in_name {run : List Char} (parts : ∀ d ∈ run, isNamePart d = true)
    {d : Duration} {width : Nat} (found : Duration.scan? run = some (d, width)) :
    ∃ number letters e more, run = number ++ letters ++ [e] ++ more ∧
      (number ++ letters ++ [e]).length = width ∧ (∀ d ∈ number, isDecimal d = true) ∧
      (∀ d ∈ letters ++ [e], isAlphabetic d = true) ∧ StopsRun isWordChar more ∧
      d.negative = false := by
  obtain ⟨number, word, more, unit, rfl, size, shape, spelled, ends⟩ := scan?_shape found
  have negative := scan?_negative found
  obtain ⟨letters, e, rfl⟩ := (List.eq_nil_or_concat' word).resolve_left (ne_nil_of_unit spelled)
  have digits : ∀ d ∈ number, isDecimal d = true := by
    intro d member
    have part := parts d (by simp [member])
    rcases shape d member with rfl | rfl | decimal
    · exact absurd part (by decide)
    · exact absurd part (by decide)
    · exact decimal
  refine ⟨number, letters, e, more, by simp, by simpa using size, digits, letters_of_unit spelled,
    ends, ?_⟩
  rw [negative]
  cases first : (number ++ (letters ++ [e]) ++ more).head? with
  | none => rfl
  | some f =>
    have part := parts f (List.mem_of_mem_head? first)
    have other : f ≠ '-' := by
      rintro rfl
      exact absurd part (by decide)
    simpa using other

private theorem nonnegative_of_seconds {d : Duration} {seconds : Int}
    (length : d.seconds? = some seconds) (positive : d.negative = false) : 0 ≤ seconds := by
  obtain ⟨n, nonnegative, -, rfl⟩ := d.exists_word length
  simpa [positive] using nonnegative

theorem closed_behind {source rest : List Char} {d : Duration}
    (scanned : Duration.scan? (source ++ rest) = some (d, source.length))
    (closed : outside.after before.reverse = outside) :
    outside.after (source.reverse ++ before).reverse = outside := by
  obtain ⟨part, left, split, -, width, free⟩ := scan?_split scanned
  obtain ⟨rfl, -⟩ := List.append_inj split width.symm
  rw [after_reverse_append, closed, after_quoteFree free]

end Runs

/-- Digits in front of what begins with no character of a word are not a number in front of a unit. -/
theorem digits_append_ne {digits other number word more : List Char}
    (digit : ∀ d ∈ digits, d.isDigit = true) (decimals : ∀ d ∈ number, isDecimal d = true)
    (letters : ∀ d ∈ word, isAlphabetic d = true) (some : word ≠ [])
    (stops : StopsRun isWordChar other) : digits ++ other ≠ number ++ (word ++ more) := by
  intro same
  obtain ⟨c, word, rfl⟩ := List.exists_cons_of_ne_nil some
  have letter : isAlphabetic c = true := letters c (.head _)
  have unit : StopsRun isDecimal (c :: word ++ more) := by
    intro d first
    obtain rfl : c = d := by simpa using first
    exact (plain_of_isAlphabetic letter).2
  obtain ⟨-, rfl⟩ := run_unique same (fun d member => isDecimal_of_isDigit (digit d member))
    stops.isDecimal decimals unit
  have plain : isWordChar c = false := stops c rfl
  simp [isWordChar, letter] at plain

section Cases
variable {before after : List Char} {c : Char} {cuts : List Cut}
  (name : isNamePart c = true ∨ c = '@') (outer : outside.after (c :: before).reverse = outside)
  (ends : StopsRun isNamePart after) (read : Cuts after cuts)
include name outer ends read

/-- A name that is over goes on only if a duration stands right behind it. -/
private theorem renamesRun_over (texts : RereadsText after)
    (runs : ∀ other, other.length < after.length → RereadsRun other) :
    RenamesRun before c [] after cuts := by
  cases digits : writesDigits ⟨c :: before, after⟩ with
  | false =>
    exact renamesRun_end name outer ends digits (texts (c :: before) cuts read outer fun _ => digits)
  | true =>
    cases found : conversionAt? ⟨c :: before, after⟩ with
    | none => simp [writesDigits, found] at digits
    | some conversion =>
      have positive : 0 ≤ conversion.seconds := by simpa [writesDigits, found] using digits
      -- The unit of the duration and what follows go on with the name.
      have scanned := (conversionAt?_eq_some.mp found).1
      obtain ⟨sign, number, token, word, more, behind, others, rfl, width, front, rfl, left⟩ :=
        exists_durationFront read scanned
      obtain ⟨letters, e, rfl⟩ := (List.eq_nil_or_concat' word).resolve_left front.some
      have letter : isAlphabetic e = true := front.letters e (by simp)
      have closed := closed_behind (by rw [scanned, ← width]) outer
      have renames := runs (more ++ behind) (by simp; omega)
        ((sign ++ (number ++ letters)).reverse ++ c :: before) e more behind others rfl front.parts
        front.nameEnds left (.inl (isNamePart_of_isAlphabetic letter)) (by simpa using closed)
      refine renamesRun_written name outer ?_ found ?_ positive letter front.wordEnds front.nameEnds
        (looseNames_durationCuts front others) ?_ renames
      · simp
      · simpa using width.symm
      · intro other _ same
        exact natDigits_ne_nil _ (List.append_eq_nil_iff.mp same).1

/-- The end of a name ends a duration, so one that the rest of the name begins with is all within the
name. -/
private theorem renamesRun_duration {d : Char} {run : List Char} {front : Duration × Nat}
    (parts : ∀ e ∈ d :: run, isNamePart e = true)
    (scanned : Duration.scan? (d :: run ++ after) = some front)
    (runs : ∀ other, other.length < (d :: run ++ after).length → RereadsRun other) :
    RenamesRun before c (d :: run) after cuts := by
  have inner := Duration.scan?_front (List.cons_ne_nil d run) (read.lexes.endsDuration ends)
  rw [scanned, eq_comm] at inner
  obtain ⟨number, letters, e, more, split, size, decimals, alphabetic, wordEnds, positive⟩ :=
    exists_duration_in_name parts inner
  have letter : isAlphabetic e = true := alphabetic e (by simp)
  have whole : d :: run ++ after = number ++ letters ++ [e] ++ (more ++ after) := by
    simp [split]
  have closed := closed_behind (by rw [← whole, scanned, size]) outer
  have renames := runs (more ++ after) (by have := congrArg List.length whole; simp at this ⊢; omega)
    ((number ++ letters).reverse ++ c :: before) e more after cuts rfl
    (fun f member => parts f (by simp [split, member])) ends read
    (.inl (isNamePart_of_isAlphabetic letter)) (by simpa using closed)
  obtain ⟨duration, width⟩ := front
  obtain rfl := size
  cases found : conversionAt? ⟨c :: before, d :: run ++ after⟩ with
  | none =>
    have follows : ∀ f ∈ number ++ letters, mayFollow [f] = false := by
      intro f member
      refine mayFollow_of_isNamePart (parts f (by simp [split] at member ⊢; tauto)) ?_ []
      rintro rfl
      rcases List.mem_append.mp member with digit | letter
      · exact absurd (decimals '$' digit) (by decide)
      · exact absurd (alphabetic '$' (by simp [letter])) (by decide)
    rw [whole] at scanned found
    have parts : ∀ f ∈ number ++ letters ++ [e], isNamePart f = true := fun f member =>
      parts f (by rw [split]; exact List.mem_append_left _ member)
    have passed := renamesRun_passed name outer follows parts scanned found renames
    simpa [split] using passed
  | some conversion =>
    obtain ⟨same, length, -⟩ := conversionAt?_eq_some.mp found
    obtain ⟨rfl, width⟩ := Prod.mk.inj (Option.some.inj (scanned.symm.trans same))
    refine renamesRun_written name outer whole found width.symm
      (nonnegative_of_seconds length positive) letter wordEnds ends rfl ?_ renames
    intro other stops same
    -- What is written stands for the duration's own number, so its unit would be missing.
    have apart : d :: run = number ++ (letters ++ [e] ++ more) := by simp [split]
    exact digits_append_ne (fun _ => isDigit_of_mem_natDigits) decimals alphabetic (by simp) stops
      (same.trans apart)

end Cases

theorem rereadsRun {cs : List Char} (texts : ∀ other, other.length ≤ cs.length → RereadsText other)
    (runs : ∀ other, other.length < cs.length → RereadsRun other) : RereadsRun cs := by
  rintro before c run after cuts rfl parts ends read name outer
  cases run with
  | nil => exact renamesRun_over name outer ends read (texts after (by simp)) runs
  | cons d run =>
    cases scanned : Duration.scan? (d :: run ++ after) with
    | none =>
      have part := parts d (.head _)
      have closed : outside.after (d :: c :: before).reverse = outside := by
        rw [after_reverse_cons, outer, next_plain (isQuote_of_isNamePart part)]
      have behind := runs (run ++ after) (by simp) (c :: before) d run after cuts rfl
        (fun e member => parts e (.tail _ member)) ends read (.inl part) closed
      exact renamesRun_char part scanned behind
    | some front => exact renamesRun_duration name outer ends read parts scanned runs

end PullQuery.Query
