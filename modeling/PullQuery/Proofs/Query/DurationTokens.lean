import PullQuery.Proofs.Query.Conversions
import PullQuery.Proofs.Query.Cuts
import PullQuery.Proofs.Query.WrittenDurations

/-! The tokens that a duration is read as. Where the lexer accepts a text, what ends a number or a
name ends a duration too, so a duration is a number and the front of the name behind it, after a
minus if it has a sign. -/
namespace PullQuery.Query
open PullQuery.Number PullQuery.Text QuoteState Lexeme

theorem Lexes.front_cases {c : Char} {rest : List Char} {tokens : List Token}
    (lexes : Lexes (c :: rest) tokens) :
    isBlank c = true ∨ c ∈ symbolStarts ∨ isQuote c = true ∨ c.isDigit = true ∨
      isNameStart c = true := by
  rcases lexes.uncons with ⟨blank, -⟩ | ⟨source, after, token, others, split, -, fronts, -⟩
  · exact .inl blank
  · obtain ⟨d, run, rfl, read⟩ := fronts.scan_ok
    obtain ⟨rfl, -⟩ := List.cons.inj split
    by_contra other
    simp only [not_or, Bool.not_eq_true] at other
    obtain ⟨-, symbol, quote, digit, start⟩ := other
    unfold scan at read
    simp [symbols_find?_eq_none symbol, quote, digit, start] at read

private theorem isDecimal_of_isNameStart {c : Char} (start : isNameStart c = true) :
    isDecimal c = false := by
  cases decimal : isDecimal c with
  | false => rfl
  | true =>
    have letter := isAlphabetic_of_isDecimal decimal
    simp only [isNameStart, letter, Bool.false_or, Bool.or_eq_true, beq_iff_eq] at start
    obtain (rfl | rfl) | rfl := start <;> exact absurd decimal (by decide)

theorem isNamePart_of_isAlphabetic {c : Char} (letter : isAlphabetic c = true) :
    isNamePart c = true := by simp [isNamePart, isAlphanumeric, letter]

theorem isNamePart_of_isNameStart {c : Char} (start : isNameStart c = true) :
    isNamePart c = true ∨ c = '@' := by
  simp only [isNameStart, Bool.or_eq_true, beq_iff_eq] at start
  rcases start with ((letter | rfl) | rfl) | rfl
  · exact .inl (isNamePart_of_isAlphabetic letter)
  · exact .inl rfl
  · exact .inl rfl
  · exact .inr rfl

theorem Lexes.endsDuration {cs : List Char} {tokens : List Token} (lexes : Lexes cs tokens)
    (stops : StopsRun isNamePart cs) : EndsDuration cs := by
  intro c first
  obtain ⟨rest, rfl⟩ := List.head?_eq_some_iff.mp first
  have ends : isNamePart c = false := stops c rfl
  have point : c ≠ '.' := by
    rintro rfl
    exact not_lexes_point lexes
  have symbols : symbolStarts.all (fun c => !isDecimal c && !isWordChar c) = true := by
    decide
  rcases lexes.front_cases with blank | symbol | quote | digit | start
  · exact ⟨isDecimal_of_isBlank blank, isWordChar_of_isBlank blank, point⟩
  · have apart := List.all_eq_true.mp symbols c symbol
    simp only [Bool.and_eq_true, Bool.not_eq_true'] at apart
    exact ⟨apart.1, apart.2, point⟩
  · exact ⟨isDecimal_of_isQuote c quote, isWordChar_of_isQuote c quote, point⟩
  · simp [isNamePart_of_isDigit digit] at ends
  · obtain rfl := (isNamePart_of_isNameStart start).resolve_left (by simp [ends])
    exact ⟨by decide, by decide, point⟩

def EndsNumber (cs : List Char) : Prop := ∀ c ∈ cs.head?, isDecimal c = false ∧ c ≠ '.'

theorem Lexes.endsNumber {cs : List Char} {tokens : List Token} (lexes : Lexes cs tokens)
    (stops : StopsRun Char.isDigit cs) : EndsNumber cs := by
  intro c first
  obtain ⟨rest, rfl⟩ := List.head?_eq_some_iff.mp first
  refine ⟨?_, ?_⟩
  · have symbols : symbolStarts.all (fun c => !isDecimal c) = true := by decide
    rcases lexes.front_cases with blank | symbol | quote | digit | start
    · exact isDecimal_of_isBlank blank
    · simpa using List.all_eq_true.mp symbols c symbol
    · exact isDecimal_of_isQuote c quote
    · have other : c.isDigit = false := stops c rfl
      simp [digit] at other
    · exact isDecimal_of_isNameStart start
  · rintro rfl
    exact not_lexes_point lexes

inductive IsNumber : List Char → Prop
  | integer {digits : List Char} (some : digits ≠ []) (all : ∀ c ∈ digits, c.isDigit = true) :
      IsNumber digits
  | float {whole fraction : List Char} (start : whole ≠ []) (some : fraction ≠ [])
      (all : ∀ c ∈ whole, c.isDigit = true) (decimals : ∀ c ∈ fraction, c.isDigit = true) :
      IsNumber (whole ++ '.' :: fraction)

private theorem IsNumber.suffix {front back : List Char} (isNumber : IsNumber (front ++ back))
    (some : back ≠ []) : IsNumber back ∨ back.head? = .some '.' := by
  generalize same : front ++ back = number at isNumber
  cases isNumber with
  | integer _ all =>
    subst same
    exact .inl (.integer some fun c member => all c (List.mem_append_right _ member))
  | @float whole fraction start more all decimals =>
    rcases List.append_eq_append_iff.mp same with ⟨left, rfl, split⟩ | ⟨left, rfl, split⟩
    · cases left with
      | nil => exact .inr (by simp [split])
      | cons c left =>
        rw [split]
        exact .inl (.float (List.cons_ne_nil c left) more
          (fun d member => all d (List.mem_append_right _ member)) decimals)
    · cases left with
      | nil =>
        obtain rfl : '.' :: fraction = back := split
        exact .inr rfl
      | cons c left =>
        obtain ⟨rfl, rfl⟩ := List.cons.inj split
        exact .inl (.integer some fun d member => decimals d (List.mem_append_right _ member))

theorem Duration.scan?_number {sign number after : List Char} (signed : sign = [] ∨ sign = ['-'])
    (isNumber : IsNumber number) (ends : EndsNumber after) :
    ∃ made : TimeUnit → Duration, scan? (sign ++ (number ++ after)) =
      (TimeUnit.ofSpelling? (after.takeWhile isWordChar)).map fun unit =>
        (made unit, sign.length + number.length + (after.takeWhile isWordChar).length) := by
  obtain ⟨whole, tail, fraction, rfl, some, all, stops, decimal, behind⟩ :
      ∃ whole tail fraction, number = whole ++ tail ∧ whole ≠ [] ∧
        (∀ c ∈ whole, c.isDigit = true) ∧ StopsRun isDecimal (tail ++ after) ∧
        decimals (tail ++ after) = fraction ∧
        (tail = [] ∧ fraction = [] ∨ fraction ≠ [] ∧ tail.length = fraction.length + 1) := by
    have plain : StopsRun isDecimal after := fun c first => (ends c first).1
    cases isNumber with
    | integer some all =>
      refine ⟨number, [], [], by simp, some, all, plain, ?_, .inl ⟨rfl, rfl⟩⟩
      exact decimals_plain fun point => (ends '.' point).2 rfl
    | @float whole fraction start some all digits =>
      refine ⟨whole, '.' :: fraction, fraction, rfl, start, all, ?_, ?_, .inr ⟨some, rfl⟩⟩
      · intro c first
        obtain rfl : '.' = c := by simpa using first
        decide
      · exact (run_split (fun c member => isDecimal_of_isDigit (digits c member)) plain).1
  obtain ⟨taken, dropped⟩ := run_split (fun c member => isDecimal_of_isDigit (all c member)) stops
  have body : unsigned (sign ++ (whole ++ tail ++ after)) = whole ++ (tail ++ after) := by
    rw [List.append_assoc]
    rcases signed with rfl | rfl
    · refine unsigned_plain fun minus => ?_
      obtain ⟨c, whole, rfl⟩ := List.exists_cons_of_ne_nil some
      obtain rfl : c = '-' := by simpa using minus
      simpa using all '-' (.head _)
    · rfl
  have rest : behindNumber (whole ++ (tail ++ after)) = after := by
    unfold behindNumber
    simp only [dropped, decimal]
    rcases behind with ⟨rfl, rfl⟩ | ⟨more, size⟩
    · rfl
    · have digits : fraction.isEmpty = false := by simpa using more
      simp [digits, ← size]
  refine ⟨fun unit => ⟨(sign ++ (whole ++ tail ++ after)).head? == .some '-', whole,
    if fraction.isEmpty then none else .some fraction, unit⟩, ?_⟩
  have width : (sign ++ (whole ++ tail ++ after)).length - after.length =
      sign.length + (whole ++ tail).length := by
    simp only [List.length_append]
    omega
  have digits : whole.isEmpty = false := by simpa using some
  unfold scan?
  simp only [body, taken, dropped, decimal, rest, digits, width]
  rfl

/-- Between a number and what ends it no duration begins unless one begins with the number. -/
theorem IsNumber.scan?_suffix {front back after : List Char} (isNumber : IsNumber (front ++ back))
    (some : back ≠ []) (ends : EndsNumber after)
    (none : Duration.scan? (front ++ back ++ after) = none) :
    Duration.scan? (back ++ after) = .none := by
  rcases isNumber.suffix some with again | point
  · obtain ⟨made, whole⟩ := Duration.scan?_number (.inl rfl) isNumber ends
    obtain ⟨other, part⟩ := Duration.scan?_number (.inl rfl) again ends
    rw [List.nil_append, none, eq_comm, Option.map_eq_none_iff] at whole
    rw [List.nil_append, whole] at part
    exact part
  · obtain ⟨back, rfl⟩ := List.head?_eq_some_iff.mp point
    exact Duration.scan?_plain (by simp) (by simp [StopsRun]; decide)

theorem isNameStart_of_isAlphabetic {c : Char} (letter : isAlphabetic c = true) :
    isNameStart c = true := by simp [isNameStart, letter]

private theorem not_keyword_of_unit {word front : List Char} {unit : TimeUnit} {token : Token}
    (spelled : TimeUnit.ofSpelling? word = some unit) (prefixed : front <+: word)
    (keyword : keyword? front = some token) : False := by
  have all : TimeUnit.spellings.all (fun spelling => Token.keywords.all fun keyword =>
      !keyword.1.isPrefixOf spelling.1) = true := by decide
  have checked := List.all_eq_true.mp (List.all_eq_true.mp all _ (mem_spellings spelled)) _
    (mem_keywords keyword)
  simp [List.isPrefixOf_iff_prefix.mpr prefixed] at checked

theorem letters_of_keyword {word : List Char} {token : Token}
    (keyword : keyword? word = some token) : ∀ c ∈ word, isAlphabetic c = true := by
  have all : Token.keywords.all (·.1.all Char.isAlpha) = true := by decide
  have letters := List.all_eq_true.mp (List.all_eq_true.mp all _ (mem_keywords keyword))
  exact fun c member => isAlphabetic_of_isAlpha (letters c member)

theorem keyword?_eq_none {word : List Char} {c : Char} (member : c ∈ word)
    (other : isAlphabetic c = false) : keyword? word = none := by
  cases found : keyword? word with
  | none => rfl
  | some keyword =>
    have letter := letters_of_keyword found c member
    simp [other] at letter

/-- Where a unit is the word in front of a text, the front token is a name that begins with the unit
and goes on with no character of a word. -/
theorem exists_name_of_unit {cs : List Char} {cuts : List Cut} (read : Cuts cs cuts)
    {unit : TimeUnit} (spelled : TimeUnit.ofSpelling? (cs.takeWhile isWordChar) = some unit) :
    ∃ word more after others, cs = word ++ (more ++ after) ∧ cs.takeWhile isWordChar = word ∧
      (∀ c ∈ more, isNamePart c = true) ∧ StopsRun isNamePart after ∧ StopsRun isWordChar more ∧
      keyword? (word ++ more) = none ∧
      cuts = ⟨word ++ more, .name (String.ofList (word ++ more)), after⟩ :: others ∧
      Cuts after others := by
  obtain ⟨word, rest, rfl, all, ends⟩ := exists_run isWordChar cs
  obtain ⟨taken, -⟩ := run_split all ends
  rw [taken] at spelled ⊢
  have letters := letters_of_unit spelled
  obtain ⟨more, after, rfl, parts, stops⟩ := exists_run isNamePart rest
  obtain ⟨c, run, rfl⟩ := List.exists_cons_of_ne_nil (ne_nil_of_unit spelled)
  have bare : keyword? (c :: (run ++ more)) = none := by
    cases keyword : keyword? (c :: (run ++ more)) with
    | none => rfl
    | some token =>
      have noMore : more = [] := by
        cases more with
        | nil => rfl
        | cons d more =>
          have letter := letters_of_keyword keyword d (by simp)
          have other : isWordChar d = false := ends d rfl
          simp [isWordChar, letter] at other
      subst noMore
      exact (not_keyword_of_unit spelled (by simp) keyword).elim
  have fronts : Fronts (c :: (run ++ more)) after (.name (String.ofList (c :: (run ++ more)))) := by
    refine .name (isNameStart_of_isAlphabetic (letters c (.head _))) (fun d member => ?_) stops bare
    rcases List.mem_append.mp member with unit | behind
    · exact isNamePart_of_isAlphabetic (letters d (.tail _ unit))
    · exact parts d behind
  have split : c :: run ++ (more ++ after) = c :: (run ++ more) ++ after := by simp
  rw [split] at read
  obtain ⟨others, same, behind⟩ := read.first fronts
  refine ⟨c :: run, more, after, others, rfl, rfl, parts, stops, ?_, bare, same, behind⟩
  intro d first
  exact ends d (by simp [Option.mem_def.mp first])

def Token.isNumber : Token → Bool
  | .integer _ | .float _ => true
  | _ => false

private theorem exists_number {c : Char} (decimal : isDecimal c = true) {rest : List Char}
    {cuts : List Cut} (read : Cuts (c :: rest) cuts) :
    ∃ number token after others, c :: rest = number ++ after ∧ IsNumber number ∧
      StopsRun Char.isDigit after ∧ token.isNumber = true ∧ Fronts number after token ∧
      cuts = ⟨number, token, after⟩ :: others ∧ Cuts after others := by
  generalize text : c :: rest = cs at read
  cases read with
  | nil => simp at text
  | blank blank behind =>
    obtain ⟨rfl, -⟩ := List.cons.inj text
    simp [isDecimal_of_isBlank blank] at decimal
  | @token source after token cuts fronts behind =>
    refine ⟨source, token, after, cuts, rfl, ?_⟩
    have front := fronts
    cases fronts with
    | symbol found =>
      obtain ⟨d, run, rfl, -⟩ := (Fronts.symbol found).exists_cons
      obtain ⟨rfl, -⟩ := List.cons.inj text
      have all : Token.symbols.all (·.1.all (!isDecimal ·)) = true := by decide
      have plain := List.all_eq_true.mp (List.all_eq_true.mp all _ (mem_symbols found)) c (.head _)
      simp [decimal] at plain
    | literal quoted =>
      obtain ⟨rfl, -⟩ := List.cons.inj text
      simp [isDecimal_of_isQuote c quoted] at decimal
    | integer all read stops =>
      refine ⟨.integer ?_ all, stops, rfl, front, rfl, behind⟩
      rintro rfl
      simp [readWord?] at read
    | float all decimals start some stops =>
      exact ⟨.float start some all decimals, stops, rfl, front, rfl, behind⟩
    | keyword start | notIn start | name start =>
      obtain ⟨rfl, -⟩ := List.cons.inj text
      simp [isDecimal_of_isNameStart start] at decimal

theorem scan?_front_char {c : Char} {rest : List Char} {front : Duration × Nat}
    (found : Duration.scan? (c :: rest) = some front) : c = '-' ∨ isDecimal c = true := by
  by_contra other
  obtain ⟨minus, decimal⟩ := not_or.mp other
  have none := @Duration.scan?_plain (c :: rest) (by simpa using minus)
    (by simpa [StopsRun] using decimal)
  simp [none] at found

theorem scan?_negative {cs : List Char} {d : Duration} {width : Nat}
    (found : Duration.scan? cs = some (d, width)) : d.negative = (cs.head? == some '-') := by
  obtain ⟨word, rest, rfl, -, isWritten, -⟩ := exists_written found
  exact (isWritten.unsigned_written rest).2.symm

/-- A duration is a number with or without a sign and the unit behind it, a whole word. -/
theorem scan?_shape {cs : List Char} {d : Duration} {width : Nat}
    (found : Duration.scan? cs = some (d, width)) :
    ∃ front word rest unit, cs = front ++ word ++ rest ∧ (front ++ word).length = width ∧
      (∀ c ∈ front, c = '-' ∨ c = '.' ∨ isDecimal c = true) ∧
      TimeUnit.ofSpelling? word = some unit ∧ StopsRun isWordChar rest := by
  obtain ⟨word, rest, rfl, size, isWritten, ends⟩ := exists_written found
  rw [Duration.written, ← List.append_assoc] at size ⊢
  refine ⟨d.sign ++ d.amount, word, rest, d.unit, rfl, size, fun c member => ?_, isWritten.unit, ends⟩
  rcases List.mem_append.mp member with sign | number
  · unfold Duration.sign at sign
    split at sign
    · exact .inl (List.mem_singleton.mp sign)
    · simp at sign
  · exact .inr (isWritten.amount_char c number)

/-- How a duration is read in front of a text: its sign and its number are tokens, and its unit is the
front of a name that goes on with `more`. -/
structure DurationFront (sign number : List Char) (token : Token) (word more after : List Char) :
    Prop where
  signed : sign = [] ∨ sign = ['-']
  isNumber : token.isNumber = true
  fronts : Fronts number (word ++ (more ++ after)) token
  some : word ≠ []
  letters : ∀ c ∈ word, isAlphabetic c = true
  bare : keyword? (word ++ more) = none
  parts : ∀ c ∈ more, isNamePart c = true
  wordEnds : StopsRun isWordChar more
  nameEnds : StopsRun isNamePart after

def durationCuts (sign number : List Char) (token : Token) (word more after : List Char) :
    List Cut :=
  (if sign = [] then [] else [⟨sign, .minus, number ++ (word ++ (more ++ after))⟩]) ++
    [⟨number, token, word ++ (more ++ after)⟩,
      ⟨word ++ more, .name (String.ofList (word ++ more)), after⟩]

theorem fronts_minus (after : List Char) : Fronts ['-'] after .minus := .symbol rfl

theorem exists_durationFront {cs : List Char} {cuts : List Cut} (read : Cuts cs cuts)
    {d : Duration} {width : Nat} (found : Duration.scan? cs = some (d, width)) :
    ∃ sign number token word more after others,
      cs = sign ++ (number ++ word) ++ (more ++ after) ∧
      (sign ++ (number ++ word)).length = width ∧
      DurationFront sign number token word more after ∧
      cuts = durationCuts sign number token word more after ++ others ∧ Cuts after others := by
  -- What stands behind the sign begins with a digit, so it is read as a number.
  obtain ⟨sign, c, rest, rfl, signed, decimal, behind, split, inner⟩ : ∃ sign c rest,
      cs = sign ++ c :: rest ∧ (sign = [] ∨ sign = ['-']) ∧ isDecimal c = true ∧
        ∃ behind, cuts = (if sign = [] then [] else [⟨sign, .minus, c :: rest⟩]) ++ behind ∧
          Cuts (c :: rest) behind := by
    cases cs with
    | nil => simp [Duration.scan?, Duration.unsigned] at found
    | cons c rest =>
      rcases scan?_front_char found with rfl | decimal
      · obtain ⟨behind, rfl, inner⟩ := @Cuts.first ['-'] rest _ _ read (fronts_minus rest)
        cases rest with
        | nil => simp [Duration.scan?, Duration.unsigned] at found
        | cons c rest =>
          refine ⟨['-'], c, rest, rfl, .inr rfl, ?_, behind, rfl, inner⟩
          by_contra other
          simp [Duration.scan?, Duration.unsigned, other] at found
      · exact ⟨[], c, rest, rfl, .inl rfl, decimal, cuts, rfl, read⟩
  obtain ⟨number, token, left, others, numeral, digits, stops, isNumber, fronts, rfl, names⟩ :=
    exists_number decimal inner
  obtain ⟨made, scanned⟩ :=
    Duration.scan?_number signed digits (names.lexes.endsNumber stops)
  rw [numeral, scanned] at found
  obtain ⟨unit, spelled, made⟩ := Option.map_eq_some_iff.mp found
  obtain ⟨word, more, after, others, rfl, same, parts, nameEnds, wordEnds, bare, rfl, read⟩ :=
    exists_name_of_unit names spelled
  rw [same] at spelled made
  obtain ⟨-, size⟩ := Prod.mk.inj made
  refine ⟨sign, number, token, word, more, after, others, ?_, ?_, ?_, ?_, read⟩
  · simp [numeral]
  · simpa [Nat.add_assoc] using size
  · exact ⟨signed, isNumber, fronts, ne_nil_of_unit spelled, letters_of_unit spelled, bare, parts,
      wordEnds, nameEnds⟩
  · rw [split, numeral, durationCuts, List.append_assoc]
    rfl

end PullQuery.Query
