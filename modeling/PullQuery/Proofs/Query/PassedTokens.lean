import PullQuery.Proofs.Query.Rereading

/-! What is read as before when the durations of a text become seconds. A rewritten text begins as the
text does, except where a duration becomes seconds right there, and each token that is no name and at
which no duration begins is passed over and read again. -/
namespace PullQuery.Query
open PullQuery.Number PullQuery.Text QuoteState Lexeme

section Heads
variable {before cs : List Char}

theorem conversionAt?_of_not_mayFollow (follows : mayFollow before = false) (cs : List Char) :
    conversionAt? ⟨before, cs⟩ = none := by
  rw [Option.eq_none_iff_forall_ne_some]
  intro conversion found
  have allowed : mayFollow before = true := (conversionAt?_eq_some.mp found).2.2.2.1
  simp [follows] at allowed

theorem plain_of_isAlphabetic {c : Char} (letter : isAlphabetic c = true) :
    c ≠ '-' ∧ isDecimal c = false := by
  constructor
  · rintro rfl
    exact absurd letter (by decide)
  · cases decimal : isDecimal c with
    | false => rfl
    | true => simp [isAlphabetic_of_isDecimal decimal] at letter

theorem Lexeme.IsMembership.isAlphabetic {word : List Char} (membership : IsMembership word)
    {c : Char} (member : c ∈ word) : Text.isAlphabetic c = true := by
  have letters : (['I', 'N'].all Char.isAlpha && ['i', 'n'].all Char.isAlpha) = true := by decide
  obtain ⟨upper, lower⟩ := Bool.and_eq_true_iff.mp letters
  rcases membership with rfl | rfl
  · exact isAlphabetic_of_isAlpha (List.all_eq_true.mp upper c member)
  · exact isAlphabetic_of_isAlpha (List.all_eq_true.mp lower c member)

theorem head?_of_stays (stays : conversionAt? ⟨before, cs⟩ = none) :
    (replaceFrom durationRule before 0 cs).head? = cs.head? := by
  cases cs with
  | nil => rfl
  | cons c rest =>
    cases found : Duration.scan? (c :: rest) with
    | none =>
      have text := (passes_char found before).text
      rw [List.singleton_append] at text
      rw [text]
      rfl
    | some front =>
      obtain ⟨source, left, split, some, width, -⟩ := scan?_split found
      obtain ⟨d, source, rfl⟩ := List.exists_cons_of_ne_nil some
      rw [split] at stays found ⊢
      rw [(passes_duration some (by rw [found, width]) stays).text]
      rfl

private theorem head?_intDigits (n : Int) (rest : List Char) :
    ∃ c, (intDigits n ++ rest).head? = some c ∧ (c = '-' ∧ n < 0 ∨ c.isDigit = true) := by
  by_cases negative : n < 0
  · exact ⟨'-', by simp [intDigits, negative], .inl ⟨rfl, negative⟩⟩
  · obtain ⟨c, digits, split⟩ := List.exists_cons_of_ne_nil (natDigits_ne_nil n.natAbs)
    have member : c ∈ natDigits n.natAbs := by simp [split]
    exact ⟨c, by simp [intDigits, negative, split], .inr (isDigit_of_mem_natDigits member)⟩

theorem exists_conversion {conversion : Conversion}
    (found : conversionAt? ⟨before, cs⟩ = some conversion) :
    ∃ source rest, cs = source ++ rest ∧ source ≠ [] ∧ conversion.width = source.length ∧
      Duration.scan? cs = some (conversion.duration, source.length) ∧
      conversion.duration.seconds? = some conversion.seconds := by
  obtain ⟨scanned, length, -⟩ := conversionAt?_eq_some.mp found
  obtain ⟨source, rest, rfl, some, width, -⟩ := scan?_split scanned
  exact ⟨source, rest, rfl, some, width.symm, by rw [width]; exact scanned, length⟩

theorem plain_front {c : Char} {out : List Char}
    (text : replaceFrom durationRule before 0 cs = c :: out) (minus : c ≠ '-')
    (decimal : isDecimal c = false) :
    ∃ rest, cs = c :: rest ∧ out = replaceFrom durationRule (c :: before) 0 rest := by
  cases cs with
  | nil => simp [replaceFrom] at text
  | cons d rest =>
    cases found : Duration.scan? (d :: rest) with
    | none =>
      have same := (passes_char found before).text
      rw [List.singleton_append, text] at same
      obtain ⟨rfl, behind⟩ := List.cons.inj same
      exact ⟨rest, rfl, behind⟩
    | some front =>
      have first := scan?_front_char found
      cases conv : conversionAt? ⟨before, d :: rest⟩ with
      | none =>
        have head := head?_of_stays conv
        rw [text] at head
        obtain rfl : c = d := by simpa using head
        simp [minus, decimal] at first
      | some conversion =>
        obtain ⟨source, left, split, some, width, -⟩ := exists_conversion conv
        rw [split] at conv text
        obtain ⟨e, head, shape⟩ := head?_intDigits conversion.seconds
          (replaceFrom durationRule (source.reverse ++ before) 0 left)
        rw [← (converts some conv width).1, text] at head
        obtain rfl : c = e := by simpa using head
        rcases shape with ⟨same, -⟩ | digit
        · exact absurd same minus
        · simp [isDecimal_of_isDigit digit] at decimal

private theorem plain_run {run out : List Char} (plain : ∀ c ∈ run, c ≠ '-' ∧ isDecimal c = false)
    (text : replaceFrom durationRule before 0 cs = run ++ out) :
    ∃ rest, cs = run ++ rest ∧
      out = replaceFrom durationRule (run.reverse ++ before) 0 rest := by
  induction run generalizing before cs with
  | nil => exact ⟨cs, rfl, text.symm⟩
  | cons c run ih =>
    obtain ⟨rest, rfl, behind⟩ := plain_front text (plain c (.head _)).1 (plain c (.head _)).2
    obtain ⟨left, rfl, last⟩ := ih (fun d member => plain d (.tail _ member)) behind.symm
    exact ⟨left, rfl, by simpa using last⟩

/-- No word IN is written. -/
theorem membershipAfter?_rewritten (none : membershipAfter? cs = none) :
    membershipAfter? (replaceFrom durationRule before 0 cs) = .none := by
  rw [Option.eq_none_iff_forall_ne_some]
  intro width found
  obtain ⟨blanks, word, out, text, -, blank, membership, stops⟩ := membershipAfter?_some found
  have plain : ∀ c ∈ blanks ++ word, c ≠ '-' ∧ isDecimal c = false := by
    intro c member
    rcases List.mem_append.mp member with between | letter
    · refine ⟨?_, isDecimal_of_isBlank (blank c between)⟩
      rintro rfl
      exact absurd (blank '-' between) (by decide)
    · exact plain_of_isAlphabetic (membership.isAlphabetic letter)
  rw [← List.append_assoc] at text
  obtain ⟨rest, rfl, rfl⟩ := plain_run plain text
  have ends : StopsRun isNamePart rest := by
    have letter : mayFollow ((blanks ++ word).reverse ++ before) = false := by
      have letters : mayFollow ['N'] = false ∧ mayFollow ['n'] = false := by decide
      rw [List.reverse_append]
      rcases membership with rfl | rfl
      · exact letters.1
      · exact letters.2
    intro c first
    exact stops c (by rwa [head?_of_stays (conversionAt?_of_not_mayFollow letter rest)])
  rw [List.append_assoc, membershipAfter?_word blank membership ends] at none
  simp at none

end Heads

section Tokens

private theorem fronts_symbol {source after : List Char} {token : Token}
    (listed : (source, token) ∈ Token.symbols) (plain : ∀ c ∈ after.head?, c ∉ extenders) :
    Fronts source after token := by
  refine .symbol ?_
  have plain : ∀ c ∈ after.head?, '=' ≠ c ∧ '>' ≠ c ∧ '&' ≠ c ∧ '|' ≠ c := by
    intro c first
    have other := plain c first
    simp only [extenders, List.mem_cons, List.not_mem_nil, or_false, not_or] at other
    exact ⟨Ne.symm other.1, Ne.symm other.2.1, Ne.symm other.2.2.1, Ne.symm other.2.2.2.1⟩
  simp only [Token.symbols, List.mem_cons, List.not_mem_nil, or_false] at listed
  rcases listed with h | h | h | h | h | h | h | h | h | h | h | h | h | h | h | h <;>
    obtain ⟨rfl, rfl⟩ := Prod.mk.inj h <;>
    cases after <;> simp_all [Token.symbols, List.isPrefixOf]

theorem Lexeme.Fronts.exists_last {source after : List Char} {token : Token}
    (fronts : Fronts source after token) (other : ∀ s, token ≠ .name s) :
    ∃ init c, source = init ++ [c] ∧ isNameSign c = false ∧
      (mayFollow [c] = false ∨ (source, token) ∈ Token.symbols) := by
  have alphanumeric {c : Char} (known : isAlphanumeric c = true) :
      isNameSign c = false ∧ mayFollow [c] = false :=
    ⟨isNameSign_eq_false (by decide) known, by simp [mayFollow, known]⟩
  have digit {c : Char} (known : c.isDigit = true) : isAlphanumeric c = true := by
    simp [isAlphanumeric, isNumeric_of_isDigit known]
  have letter {c : Char} (known : isAlphabetic c = true) : isAlphanumeric c = true := by
    simp [isAlphanumeric, known]
  have last {init : List Char} {c : Char} (same : source = init ++ [c])
      (known : isAlphanumeric c = true) : ∃ init c, source = init ++ [c] ∧ isNameSign c = false ∧
        (mayFollow [c] = false ∨ (source, token) ∈ Token.symbols) :=
    ⟨init, c, same, (alphanumeric known).1, .inl (alphanumeric known).2⟩
  cases fronts with
  | symbol found =>
    have listed := mem_symbols found
    have all : Token.symbols.all (fun symbol => symbol.1 != [] && symbol.1.all (!isNameSign ·)) =
        true := by decide
    have checked := List.all_eq_true.mp all _ listed
    simp only [Bool.and_eq_true, bne_iff_ne, List.all_eq_true] at checked
    obtain ⟨init, c, rfl⟩ := (List.eq_nil_or_concat' source).resolve_left checked.1
    refine ⟨init, c, rfl, ?_, .inr listed⟩
    simpa using checked.2 c (by simp)
  | @literal quote body content _ quoted spelling =>
    refine ⟨quote :: body, quote, rfl, ?_, .inl ?_⟩
    · simp only [isQuote, Bool.or_eq_true, beq_iff_eq] at quoted
      rcases quoted with rfl | rfl <;> rfl
    · simp [mayFollow, quoted]
  | integer all read =>
    have some : source ≠ [] := by
      rintro rfl
      simp [readWord?] at read
    obtain ⟨init, c, rfl⟩ := (List.eq_nil_or_concat' source).resolve_left some
    exact last rfl (digit (all c (by simp)))
  | @float whole fraction _ all decimals start some =>
    obtain ⟨init, c, rfl⟩ := (List.eq_nil_or_concat' fraction).resolve_left some
    exact @last (whole ++ '.' :: init) c (by simp) (digit (decimals c (by simp)))
  | @keyword d run _ _ start all stops keyword =>
    obtain ⟨init, c, same⟩ := (List.eq_nil_or_concat' (d :: run)).resolve_left (List.cons_ne_nil d run)
    exact last same (letter (letters_of_keyword keyword c (by simp [same])))
  | @notIn d run blanks word _ start all keyword some blank membership =>
    have letters : isAlphanumeric 'N' = true ∧ isAlphanumeric 'n' = true := by decide
    rcases membership with rfl | rfl
    · exact @last (d :: (run ++ (blanks ++ ['I']))) 'N' (by simp) letters.1
    · exact @last (d :: (run ++ (blanks ++ ['i']))) 'n' (by simp) letters.2
  | name => exact absurd rfl (other _)

/-- A token that is no name is read as before where the text behind it has been rewritten. -/
theorem Lexeme.Fronts.rewritten {source after : List Char} {token : Token} {tokens : List Token}
    (fronts : Fronts source after token) (lexes : Lexes after tokens)
    (other : ∀ s, token ≠ .name s) (before : List Char) :
    Fronts source (replaceFrom durationRule (source.reverse ++ before) 0 after) token := by
  obtain ⟨init, c, rfl, -, follows⟩ := fronts.exists_last other
  cases found : conversionAt? ⟨(init ++ [c]).reverse ++ before, after⟩ with
  | none =>
    have head := head?_of_stays found
    refine fronts.stable (.inr ⟨head.symm, fun point => ?_⟩) ?_
    · obtain ⟨rest, rfl⟩ := List.head?_eq_some_iff.mp point
      exact absurd lexes not_lexes_point
    · rintro rfl
      exact membershipAfter?_rewritten fronts.lone
  | some conversion =>
    -- A duration is converted behind a symbol only, and a digit or a minus goes on with none.
    have symbol := follows.resolve_left fun follows => by
      have last : mayFollow ((init ++ [c]).reverse ++ before) = false := by
        rw [List.reverse_append]
        exact follows
      rw [conversionAt?_of_not_mayFollow last] at found
      cases found
    obtain ⟨source, left, split, some, width, -⟩ := exists_conversion found
    rw [split] at found ⊢
    rw [(converts some found width).1]
    refine fronts_symbol symbol fun d first => ?_
    obtain ⟨e, head, shape⟩ := head?_intDigits conversion.seconds
      (replaceFrom durationRule (source.reverse ++ ((init ++ [c]).reverse ++ before)) 0 left)
    rw [head] at first
    obtain rfl : e = d := by simpa using first
    rcases shape with ⟨rfl, -⟩ | digit
    · decide
    · intro listed
      simp only [extenders, List.mem_cons, List.not_mem_nil, or_false] at listed
      rcases listed with rfl | rfl | rfl | rfl | rfl <;> simp at digit

private theorem plain_of_isBlank {c : Char} (blank : isBlank c = true) :
    c ≠ '-' ∧ isDecimal c = false := by
  refine ⟨?_, isDecimal_of_isBlank blank⟩
  rintro rfl
  exact absurd blank (by decide)

private theorem plain_of_isQuote {c : Char} (quote : isQuote c = true) :
    c ≠ '-' ∧ isDecimal c = false := by
  refine ⟨?_, isDecimal_of_isQuote c quote⟩
  rintro rfl
  simp [isQuote] at quote

private theorem passes_plain_char {c : Char} (plain : c ≠ '-' ∧ isDecimal c = false)
    (before rest : List Char) : Passes before [c] rest :=
  passes_plain (by simpa using plain) before

/-- A token at which no duration begins is passed over as a whole, if it is no name. -/
theorem Lexeme.Fronts.passes {source after : List Char} {token : Token} {tokens : List Token}
    (fronts : Fronts source after token) (lexes : Lexes after tokens)
    (other : ∀ s, token ≠ .name s) (none : Duration.scan? (source ++ after) = none)
    {before : List Char} (outer : outside.after before.reverse = outside) :
    Passes before source after := by
  have number (isNumber : IsNumber source) (stops : StopsRun Char.isDigit after) :
      Passes before source after := by
    refine passes_run (fun front back split some => ?_) before
    subst split
    exact isNumber.scan?_suffix some (lexes.endsNumber stops) none
  cases fronts with
  | symbol found =>
    obtain ⟨c, run, rfl, -⟩ := (Fronts.symbol found).exists_cons
    have all : Token.symbols.all (·.1.tail.all fun c => c != '-' && !isDecimal c) = true := by
      decide
    have checked := List.all_eq_true.mp (List.all_eq_true.mp all _ (mem_symbols found))
    refine @Passes.append _ _ [c] run (passes_char none before) (passes_plain ?_ _)
    intro d member
    simpa using checked d member
  | @literal quote body content _ quoted spelling =>
    have opens : outside.after (quote :: before).reverse = inside quote := by
      rw [after_reverse_cons, outer, next_quote quoted]
    have closing : AtQuote (quote :: after) := by simpa [AtQuote] using quoted
    have inner : Passes (quote :: before) body (quote :: after) :=
      passes_within (opens ▸ spelling.within.1) closing
    have last := passes_plain_char (plain_of_isQuote quoted) (body.reverse ++ quote :: before) after
    exact @Passes.append _ _ [quote] _ (passes_plain_char (plain_of_isQuote quoted) before _)
      (inner.append last)
  | integer all read stops =>
    refine number (.integer ?_ all) stops
    rintro rfl
    simp [readWord?] at read
  | float all decimals start some stops => exact number (.float start some all decimals) stops
  | keyword start all stops keyword =>
    exact passes_plain (fun c member => plain_of_isAlphabetic (letters_of_keyword keyword c member)) _
  | @notIn c run blanks word _ start all keyword some blank membership =>
    refine passes_plain (fun d member => ?_) _
    rw [← List.cons_append, List.mem_append, List.mem_append] at member
    rcases member with first | between | last
    · exact plain_of_isAlphabetic (letters_of_keyword keyword d first)
    · exact plain_of_isBlank (blank d between)
    · exact plain_of_isAlphabetic (membership.isAlphabetic last)
  | name => exact absurd rfl (other _)

end Tokens
end PullQuery.Query
