import PullQuery.Query.Lexeme
import PullQuery.Proofs.Text.Runs

/-! What a single token takes off the front of a text. Each reader of the lexer gets the shape of
the characters that it accepts, and `Fronts.stable` says how little of the text behind a token has
a say in it. -/
namespace PullQuery.Query.Lexeme
open PullQuery.Number PullQuery.Text

inductive Spelling (quote : Char) : List Char → List Char → Prop
  | nil : Spelling quote [] []
  | plain (c : Char) {body content : List Char} (notQuote : c ≠ quote) (notEscape : c ≠ '\\')
      (spelling : Spelling quote body content) : Spelling quote (c :: body) (c :: content)
  | escape (c meant : Char) {body content : List Char} (escapes : unescape? c = some meant)
      (spelling : Spelling quote body content) :
      Spelling quote ('\\' :: c :: body) (meant :: content)

theorem spelling_escapeQuoted (cs : List Char) : Spelling '"' (escapeQuoted cs) cs := by
  induction cs with
  | nil => exact .nil
  | cons c rest ih =>
    by_cases special : c = '"' ∨ c = '\\'
    · rcases special with rfl | rfl
      · exact .escape _ _ rfl ih
      · exact .escape _ _ rfl ih
    · obtain ⟨notQuote, notEscape⟩ := not_or.mp special
      simpa [escapeQuoted, notQuote, notEscape] using .plain c notQuote notEscape ih

private theorem scanQuoted_spelling {quote : Char} (other : quote ≠ '\\') {body content : List Char}
    (spelling : Spelling quote body content) (rest : List Char) :
    scanQuoted quote (body ++ quote :: rest) = .ok (content, body.length + 1) := by
  induction spelling with
  | nil =>
    unfold scanQuoted
    simp
  | plain c notQuote notEscape spelling ih =>
    unfold scanQuoted
    simp [notQuote, notEscape, ih]
  | escape c meant escapes spelling ih =>
    unfold scanQuoted
    simp [Ne.symm other, escapes, ih]

private theorem scanQuoted_ok {quote : Char} {cs content : List Char} {width : Nat}
    (ok : scanQuoted quote cs = .ok (content, width)) :
    ∃ body rest, cs = body ++ quote :: rest ∧ width = body.length + 1 ∧
      Spelling quote body content := by
  fun_induction scanQuoted quote cs generalizing content width with
  | case2 rest =>
    simp only [Except.ok.injEq, Prod.mk.injEq] at ok
    obtain ⟨rfl, rfl⟩ := ok
    exact ⟨[], rest, rfl, rfl, .nil⟩
  | case5 c rest meant escapes inner width read other ih =>
    obtain ⟨body, after, rfl, rfl, spelling⟩ := ih read
    simp only [Except.ok.injEq, Prod.mk.injEq] at ok
    obtain ⟨rfl, rfl⟩ := ok
    exact ⟨'\\' :: c :: body, after, rfl, rfl, .escape c meant escapes spelling⟩
  | case7 c rest notQuote notEscape inner width read ih =>
    obtain ⟨body, after, rfl, rfl, spelling⟩ := ih read
    simp only [Except.ok.injEq, Prod.mk.injEq] at ok
    obtain ⟨rfl, rfl⟩ := ok
    exact ⟨c :: body, after, rfl, rfl, .plain c notQuote notEscape spelling⟩
  | _ => simp at ok

def startsFraction : List Char → Bool
  | c :: d :: _ => c == '.' && d.isDigit
  | _ => false

theorem scanNumber_whole {whole rest : List Char} (digits : ∀ c ∈ whole, c.isDigit = true)
    (stops : StopsRun Char.isDigit rest) (point : startsFraction rest = false) :
    scanNumber (whole ++ rest) = match readWord? whole with
      | some n => .ok (.integer n, whole.length)
      | none => .error (.badNumber (String.ofList whole)) := by
  obtain ⟨taken, dropped⟩ := run_split digits stops
  have plain : ∀ after, rest = '.' :: after → after.takeWhile Char.isDigit = [] := by
    rintro (_ | ⟨d, after⟩) rfl
    · rfl
    · have word : d.isDigit = false := by simpa [startsFraction] using point
      simp [word]
  unfold scanNumber
  rw [taken, dropped]
  cases read : readWord? whole <;> split <;> simp [plain, read]

theorem scanNumber_fraction {whole fraction rest : List Char}
    (digits : ∀ c ∈ whole, c.isDigit = true) (decimals : ∀ c ∈ fraction, c.isDigit = true)
    (some : fraction ≠ []) (stops : StopsRun Char.isDigit rest) :
    scanNumber (whole ++ '.' :: (fraction ++ rest)) =
      .ok (.float (decimalFloat whole fraction), whole.length + 1 + fraction.length) := by
  have point : StopsRun Char.isDigit ('.' :: (fraction ++ rest)) := by simp [StopsRun]
  obtain ⟨taken, dropped⟩ := run_split digits point
  unfold scanNumber
  rw [taken, dropped]
  simp [(run_split decimals stops).1, some]

/-- A text starts with digits that no point follows, or with two runs of digits around a point. -/
theorem digits_shape (cs : List Char) :
    ∃ whole rest, cs = whole ++ rest ∧ (∀ c ∈ whole, c.isDigit = true) ∧
      StopsRun Char.isDigit rest ∧ (startsFraction rest = false ∨
        ∃ fraction after, rest = '.' :: (fraction ++ after) ∧ fraction ≠ [] ∧
          (∀ c ∈ fraction, c.isDigit = true) ∧ StopsRun Char.isDigit after) := by
  obtain ⟨whole, rest, rfl, digits, stops⟩ := exists_run Char.isDigit cs
  refine ⟨whole, rest, rfl, digits, stops, ?_⟩
  match rest with
  | [] => exact .inl rfl
  | [c] => exact .inl rfl
  | c :: d :: rest =>
    cases point : startsFraction (c :: d :: rest) with
    | false => exact .inl rfl
    | true =>
      obtain ⟨rfl, digit⟩ : c = '.' ∧ d.isDigit = true := by simpa [startsFraction] using point
      obtain ⟨fraction, after, split, decimals, ends⟩ := exists_run Char.isDigit (d :: rest)
      refine .inr ⟨fraction, after, congrArg _ split, ?_, decimals, ends⟩
      rintro rfl
      obtain rfl : after = d :: rest := split.symm
      simp [StopsRun, digit] at ends

def IsMembership (word : List Char) : Prop := word = ['I', 'N'] ∨ word = ['i', 'n']

theorem membershipAfter?_word {blanks word rest : List Char}
    (blank : ∀ c ∈ blanks, isBlank c = true) (membership : IsMembership word)
    (stops : StopsRun isNamePart rest) :
    membershipAfter? (blanks ++ (word ++ rest)) = some (blanks.length + 2) := by
  have ends : StopsRun isBlank (word ++ rest) := by
    rcases membership with rfl | rfl <;> simp [StopsRun] <;> decide
  obtain ⟨taken, dropped⟩ := run_split blank ends
  have read (d : Char) (part : isNamePart d = true) :
      (d :: rest).takeWhile isNamePart = [d] :=
    (@run_split isNamePart [d] rest (by simpa using part) stops).1
  unfold membershipAfter?
  rw [taken, dropped]
  rcases membership with rfl | rfl
  · simp [read 'N' (by decide), show isNameStart 'I' = true by decide]
  · simp [read 'n' (by decide), show isNameStart 'i' = true by decide]

theorem membershipAfter?_some {cs : List Char} {width : Nat}
    (found : membershipAfter? cs = some width) :
    ∃ blanks word rest, cs = blanks ++ (word ++ rest) ∧ width = blanks.length + 2 ∧
      (∀ c ∈ blanks, isBlank c = true) ∧ IsMembership word ∧ StopsRun isNamePart rest := by
  obtain ⟨blanks, after, rfl, blank, ends⟩ := exists_run isBlank cs
  obtain ⟨taken, dropped⟩ := run_split blank ends
  unfold membershipAfter? at found
  rw [taken, dropped] at found
  cases after with
  | nil => simp at found
  | cons c after =>
    obtain ⟨run, rest, rfl, all, stops⟩ := exists_run isNamePart after
    simp only [(run_split all stops).1] at found
    split at found
    · rename_i membership
      exact ⟨blanks, c :: run, rest, by simp, (Option.some.inj found).symm, blank, membership.2,
        stops⟩
    · simp at found

def keyword? (word : List Char) : Option Token :=
  (Token.keywords.find? fun keyword => keyword.1 == word).map (·.2)

theorem scanWord_run (c : Char) {run rest : List Char}
    (all : ∀ d ∈ run, isNamePart d = true) (stops : StopsRun isNamePart rest) :
    scanWord c (run ++ rest) = match keyword? (c :: run), membershipAfter? rest with
      | some .not, some width => (.notIn, run.length + 1 + width)
      | some token, _ => (token, run.length + 1)
      | none, _ => (.name (String.ofList (c :: run)), run.length + 1) := by
  obtain ⟨taken, dropped⟩ := run_split all stops
  unfold scanWord keyword?
  simp only [taken, dropped]
  generalize Token.keywords.find? (fun keyword => keyword.1 == c :: run) = found
  cases membershipAfter? rest <;> rcases found with _ | ⟨word, token⟩
  · rfl
  · cases token <;> rfl
  · rfl
  · cases token <;> rfl

def symbolStarts : List Char := ['=', '!', '<', '>', '&', '|', '~', '+', '-', '(', ')', ',']

theorem symbols_find?_eq_none {c : Char} (other : c ∉ symbolStarts) (rest : List Char) :
    Token.symbols.find? (fun symbol => symbol.1.isPrefixOf (c :: rest)) = none := by
  have starts : ∀ symbol ∈ Token.symbols, ∃ a ∈ symbolStarts, symbol.1.head? = some a := by
    intro symbol member
    simp only [Token.symbols, List.mem_cons, List.not_mem_nil, or_false] at member
    rcases member with rfl | rfl | rfl | rfl | rfl | rfl | rfl | rfl | rfl | rfl | rfl | rfl |
      rfl | rfl | rfl | rfl <;> simp [symbolStarts]
  rw [List.find?_eq_none]
  intro symbol member front
  obtain ⟨a, start, head⟩ := starts symbol member
  obtain ⟨left, equal⟩ := List.isPrefixOf_iff_prefix.mp front
  cases spelling : symbol.1 with
  | nil => simp [spelling] at head
  | cons b spelled =>
    rw [spelling] at head equal
    simp only [List.head?_cons, Option.some.injEq, List.cons_append, List.cons.injEq] at head equal
    exact other (equal.1 ▸ head ▸ start)

private theorem not_symbolStart_of_isQuote {c : Char} (quote : isQuote c = true) :
    c ∉ symbolStarts := by
  simp only [isQuote, Bool.or_eq_true, beq_iff_eq] at quote
  rcases quote with rfl | rfl <;> decide

private theorem not_symbolStart_of_isDigit {c : Char} (digit : c.isDigit = true) :
    c ∉ symbolStarts := by
  intro start
  simp only [symbolStarts, List.mem_cons, List.not_mem_nil, or_false] at start
  rcases start with rfl | rfl | rfl | rfl | rfl | rfl | rfl | rfl | rfl | rfl | rfl | rfl <;>
    simp at digit

private theorem not_symbolStart_of_isNameStart {c : Char} (name : isNameStart c = true) :
    c ∉ symbolStarts := by
  have apart : symbolStarts.all (fun c => !isNameStart c) = true := by decide
  intro start
  have other := List.all_eq_true.mp apart c start
  simp [name] at other

theorem isDigit_of_isQuote {c : Char} (quote : isQuote c = true) : c.isDigit = false := by
  simp only [isQuote, Bool.or_eq_true, beq_iff_eq] at quote
  rcases quote with rfl | rfl <;> decide

theorem isNamePart_of_isQuote {c : Char} (quote : isQuote c = true) : isNamePart c = false := by
  simp only [isQuote, Bool.or_eq_true, beq_iff_eq] at quote
  rcases quote with rfl | rfl <;> decide

theorem isNameStart_of_isQuote {c : Char} (quote : isQuote c = true) : isNameStart c = false := by
  simp only [isQuote, Bool.or_eq_true, beq_iff_eq] at quote
  rcases quote with rfl | rfl <;> decide

theorem isNamePart_of_isDigit {c : Char} (digit : c.isDigit = true) : isNamePart c = true := by
  simp [isNamePart, isAlphanumeric, isNumeric_of_isDigit digit]

theorem isNameStart_of_isDigit {c : Char} (digit : c.isDigit = true) : isNameStart c = false := by
  have other : c ≠ '_' ∧ c ≠ '$' ∧ c ≠ '@' := by
    refine ⟨?_, ?_, ?_⟩ <;> rintro rfl <;> simp at digit
  simp [isNameStart, isAlphabetic_of_isDigit digit, other]

theorem isNamePart_of_isBlank {c : Char} (blank : isBlank c = true) : isNamePart c = false := by
  have other : c ≠ '_' ∧ c ≠ '$' := by
    refine ⟨?_, ?_⟩ <;> rintro rfl <;> revert blank <;> decide
  simp [isNamePart, isAlphanumeric, isAlphabetic_of_isBlank blank, isNumeric_of_isBlank blank,
    other]

private theorem scan_digit {c : Char} (digit : c.isDigit = true) (rest : List Char) :
    scan c rest = (scanNumber (c :: rest)).mapError fun fault => (fault, 0) := by
  have quote : isQuote c = false := by
    cases quoted : isQuote c
    · rfl
    · simp [isDigit_of_isQuote quoted] at digit
  unfold scan
  simp [symbols_find?_eq_none (not_symbolStart_of_isDigit digit), quote, digit]

theorem scan_nameStart {c : Char} (start : isNameStart c = true) (rest : List Char) :
    scan c rest = .ok (scanWord c rest) := by
  have quote : isQuote c = false := by
    cases quoted : isQuote c
    · rfl
    · simp [isNameStart_of_isQuote quoted] at start
  have digit : c.isDigit = false := by
    cases digit : c.isDigit
    · rfl
    · simp [isNameStart_of_isDigit digit] at start
  unfold scan
  simp [symbols_find?_eq_none (not_symbolStart_of_isNameStart start), quote, digit, start]

/-- The characters `source` are the token at the front of a text that goes on with `after`. -/
inductive Fronts : (source after : List Char) → Token → Prop
  | symbol {source after : List Char} {token : Token}
      (found : Token.symbols.find? (fun symbol => symbol.1.isPrefixOf (source ++ after)) =
        some (source, token)) : Fronts source after token
  | literal {quote : Char} {body content after : List Char} (quoted : isQuote quote = true)
      (spelling : Spelling quote body content) :
      Fronts (quote :: (body ++ [quote])) after (.text (String.ofList content))
  | integer {digits after : List Char} {n : Int64} (all : ∀ c ∈ digits, c.isDigit = true)
      (read : readWord? digits = some n) (stops : StopsRun Char.isDigit after)
      (point : startsFraction after = false) : Fronts digits after (.integer n)
  | float {whole fraction after : List Char} (all : ∀ c ∈ whole, c.isDigit = true)
      (decimals : ∀ c ∈ fraction, c.isDigit = true) (start : whole ≠ []) (some : fraction ≠ [])
      (stops : StopsRun Char.isDigit after) :
      Fronts (whole ++ '.' :: fraction) after (.float (decimalFloat whole fraction))
  | keyword {c : Char} {run after : List Char} {token : Token} (start : isNameStart c = true)
      (all : ∀ d ∈ run, isNamePart d = true) (stops : StopsRun isNamePart after)
      (keyword : keyword? (c :: run) = some token)
      (lone : token = .not → membershipAfter? after = none) : Fronts (c :: run) after token
  | notIn {c : Char} {run blanks word after : List Char} (start : isNameStart c = true)
      (all : ∀ d ∈ run, isNamePart d = true) (keyword : keyword? (c :: run) = some .not)
      (some : blanks ≠ []) (blank : ∀ d ∈ blanks, isBlank d = true)
      (membership : IsMembership word) (stops : StopsRun isNamePart after) :
      Fronts (c :: (run ++ (blanks ++ word))) after .notIn
  | name {c : Char} {run after : List Char} (start : isNameStart c = true)
      (all : ∀ d ∈ run, isNamePart d = true) (stops : StopsRun isNamePart after)
      (keyword : keyword? (c :: run) = none) :
      Fronts (c :: run) after (.name (String.ofList (c :: run)))

/-- The literal of a text is read as the text, whatever it contains and whatever follows. -/
theorem fronts_asLiteral (cs after : List Char) :
    Fronts (asLiteral cs) after (.text (String.ofList cs)) :=
  @Fronts.literal '"' _ _ _ rfl (spelling_escapeQuoted cs)

theorem Fronts.scan_ok {source after : List Char} {token : Token}
    (fronts : Fronts source after token) :
    ∃ c run, source = c :: run ∧ scan c (run ++ after) = .ok (token, source.length) := by
  cases fronts with
  | symbol found =>
    cases source with
    | nil =>
      have member := List.mem_of_find?_eq_some found
      simp [Token.symbols] at member
    | cons c run =>
      refine ⟨c, run, rfl, ?_⟩
      rw [List.cons_append] at found
      unfold scan
      simp [found]
  | @literal quote body content _ quoted spelling =>
    have other : quote ≠ '\\' := by
      rintro rfl
      simp [isQuote] at quoted
    refine ⟨quote, body ++ [quote], rfl, ?_⟩
    unfold scan
    simp [symbols_find?_eq_none (not_symbolStart_of_isQuote quoted), quoted,
      scanQuoted_spelling other spelling after]
  | integer all read stops point =>
    cases source with
    | nil => simp [readWord?] at read
    | cons c run =>
      refine ⟨c, run, rfl, ?_⟩
      have number := scanNumber_whole all stops point
      simp only [List.cons_append, read] at number
      rw [scan_digit (all c (by simp)), number]
      rfl
  | @float whole fraction _ all decimals start some stops =>
    cases whole with
    | nil => exact absurd rfl start
    | cons c run =>
      refine ⟨c, run ++ '.' :: fraction, rfl, ?_⟩
      have number := scanNumber_fraction all decimals some stops
      simp only [List.cons_append] at number
      rw [scan_digit (all c (by simp)), List.append_assoc, List.cons_append, number]
      simp [Except.mapError]
      omega
  | @keyword c run _ _ start all stops keyword lone =>
    refine ⟨c, run, rfl, ?_⟩
    rw [scan_nameStart start, scanWord_run c all stops, keyword]
    by_cases isNot : token = .not
    · subst isNot
      rw [lone rfl]
      rfl
    · cases membershipAfter? after <;> cases token <;> first | rfl | exact absurd rfl isNot
  | @notIn c run blanks word _ start all keyword some blank membership stops =>
    refine ⟨c, run ++ (blanks ++ word), rfl, ?_⟩
    -- The blanks end the word NOT, so its run is the one that the reader takes.
    have ends : StopsRun isNamePart (blanks ++ (word ++ after)) := by
      cases blanks with
      | nil => exact absurd rfl some
      | cons d blanks =>
        intro e first
        obtain rfl : d = e := by simpa using first
        exact isNamePart_of_isBlank (blank d (by simp))
    have size : word.length = 2 := by rcases membership with rfl | rfl <;> rfl
    rw [scan_nameStart start, List.append_assoc, List.append_assoc, scanWord_run c all ends, keyword,
      membershipAfter?_word blank membership stops]
    simp [size]
    omega
  | @name c run _ start all stops keyword =>
    refine ⟨c, run, rfl, ?_⟩
    rw [scan_nameStart start, scanWord_run c all stops, keyword]
    rfl

private theorem fronts_of_scanWord {c : Char} {rest : List Char} {token : Token} {width : Nat}
    (start : isNameStart c = true) (read : scanWord c rest = (token, width)) :
    ∃ source after, c :: rest = source ++ after ∧ source.length = width ∧
      Fronts source after token := by
  obtain ⟨run, after, rfl, all, stops⟩ := exists_run isNamePart rest
  rw [scanWord_run c all stops] at read
  split at read
  · rename_i inner keyword found
    simp only [Prod.mk.injEq] at read
    obtain ⟨rfl, rfl⟩ := read
    obtain ⟨blanks, word, left, rfl, rfl, blank, spelled, ends⟩ := membershipAfter?_some found
    have some : blanks ≠ [] := by
      rintro rfl
      rcases spelled with rfl | rfl <;> simp [StopsRun] at stops <;> revert stops <;> decide
    have size : word.length = 2 := by rcases spelled with rfl | rfl <;> rfl
    exact ⟨c :: (run ++ (blanks ++ word)), left, by simp, by simp [size]; omega,
      .notIn start all keyword some blank spelled ends⟩
  · rename_i keyword lone
    simp only [Prod.mk.injEq] at read
    obtain ⟨rfl, rfl⟩ := read
    refine ⟨c :: run, after, rfl, rfl, .keyword start all stops keyword ?_⟩
    rintro rfl
    cases found : membershipAfter? after with
    | none => rfl
    | some width => exact (lone width found rfl).elim
  · rename_i keyword
    simp only [Prod.mk.injEq] at read
    obtain ⟨rfl, rfl⟩ := read
    exact ⟨c :: run, after, rfl, rfl, .name start all stops keyword⟩

theorem fronts_of_scan {c : Char} {rest : List Char} {token : Token} {width : Nat}
    (ok : scan c rest = .ok (token, width)) :
    ∃ source after, c :: rest = source ++ after ∧ source.length = width ∧
      Fronts source after token := by
  unfold scan at ok
  split at ok
  · rename_i spelling symbol found
    simp only [Except.ok.injEq, Prod.mk.injEq] at ok
    obtain ⟨rfl, rfl⟩ := ok
    have front := List.find?_some found
    obtain ⟨after, split⟩ := List.isPrefixOf_iff_prefix.mp front
    exact ⟨spelling, after, split.symm, rfl, .symbol (split ▸ found)⟩
  · split at ok
    · rename_i quoted
      split at ok
      · rename_i content inner read
        simp only [Except.ok.injEq, Prod.mk.injEq] at ok
        obtain ⟨rfl, rfl⟩ := ok
        obtain ⟨body, after, rfl, rfl, spelling⟩ := scanQuoted_ok read
        exact ⟨c :: (body ++ [c]), after, by simp, by simp, .literal quoted spelling⟩
      · simp at ok
    · split at ok
      · rename_i digit
        obtain ⟨whole, after, split, all, stops, shape⟩ := digits_shape (c :: rest)
        have start : whole ≠ [] := by
          rintro rfl
          rw [List.nil_append] at split
          have ends := stops c (by simp [← split])
          simp [digit] at ends
        rcases shape with point | ⟨fraction, left, rfl, some, decimals, ends⟩
        · rw [split, scanNumber_whole all stops point] at ok
          cases read : readWord? whole with
          | none => simp [read, Except.mapError] at ok
          | some n =>
            simp only [read, Except.mapError, Except.ok.injEq, Prod.mk.injEq] at ok
            obtain ⟨rfl, rfl⟩ := ok
            exact ⟨whole, after, split, rfl, .integer all read stops point⟩
        · rw [split, scanNumber_fraction all decimals some ends] at ok
          simp only [Except.mapError, Except.ok.injEq, Prod.mk.injEq] at ok
          obtain ⟨rfl, rfl⟩ := ok
          exact ⟨whole ++ '.' :: fraction, left, by simp [split], by simp; omega,
            .float all decimals start some ends⟩
      · split at ok
        · rename_i start
          exact fronts_of_scanWord start (Except.ok.inj ok)
        · simp at ok

/-- Characters that some token goes on with, other than those of names. -/
def extenders : List Char := ['=', '>', '&', '|', '.']

def Breaks (cs : List Char) : Prop := ∀ c ∈ cs.head?, isNamePart c = false ∧ c ∉ extenders

/-- Whatever token ends before the first text also ends before the second. -/
def EndsAlike (after other : List Char) : Prop :=
  Breaks other ∨ after.head? = other.head? ∧
    (after.head? = some '.' → after.tail.head? = other.tail.head?)

theorem EndsAlike.stopsNamePart {after other : List Char} (alike : EndsAlike after other)
    (stops : StopsRun isNamePart after) : StopsRun isNamePart other := by
  rcases alike with breaks | ⟨head, -⟩
  · exact fun c first => (breaks c first).1
  · exact fun c first => stops c (head ▸ first)

private theorem EndsAlike.stopsDigit {after other : List Char} (alike : EndsAlike after other)
    (stops : StopsRun Char.isDigit after) : StopsRun Char.isDigit other := by
  rcases alike with breaks | ⟨head, -⟩
  · intro c first
    by_contra digit
    have part := isNamePart_of_isDigit (Bool.of_not_eq_false digit)
    simp [(breaks c first).1] at part
  · exact fun c first => stops c (head ▸ first)

private theorem EndsAlike.startsFraction {after other : List Char} (alike : EndsAlike after other)
    (point : startsFraction after = false) : startsFraction other = false := by
  match other with
  | [] => rfl
  | [c] => rfl
  | c :: d :: other =>
    by_contra fraction
    obtain ⟨rfl, digit⟩ : c = '.' ∧ d.isDigit = true := by
      simpa [Lexeme.startsFraction] using Bool.of_not_eq_false fraction
    rcases alike with breaks | ⟨head, second⟩
    · exact (breaks '.' rfl).2 (by decide)
    · match after with
      | [] => simp at head
      | [e] => simp_all
      | e :: f :: after => simp_all [Lexeme.startsFraction]

private theorem symbols_shape : ∀ symbol ∈ Token.symbols,
    (∃ a, symbol.1 = [a]) ∨ ∃ a, ∃ b ∈ extenders, symbol.1 = [a, b] := by
  intro symbol member
  simp only [Token.symbols, List.mem_cons, List.not_mem_nil, or_false] at member
  rcases member with rfl | rfl | rfl | rfl | rfl | rfl | rfl | rfl | rfl | rfl | rfl | rfl | rfl |
    rfl | rfl | rfl <;> simp [extenders]

private theorem symbol_front {c : Char} {source after other : List Char}
    (alike : EndsAlike after other) {symbol : List Char × Token}
    (member : symbol ∈ Token.symbols) (front : symbol.1.isPrefixOf (c :: source ++ other) = true) :
    symbol.1.isPrefixOf (c :: source ++ after) = true := by
  obtain ⟨a, shape⟩ | ⟨a, b, extends_, shape⟩ := symbols_shape symbol member
  · rw [shape] at front ⊢
    simpa [List.isPrefixOf] using front
  · rw [shape] at front ⊢
    cases source with
    | cons d source => simpa [List.isPrefixOf] using front
    | nil =>
      cases other with
      | nil => simp [List.isPrefixOf] at front
      | cons d other =>
        obtain ⟨rfl, rfl⟩ : a = c ∧ b = d := by simpa [List.isPrefixOf] using front
        rcases alike with breaks | ⟨head, -⟩
        · exact absurd extends_ (breaks b rfl).2
        · cases after with
          | nil => simp at head
          | cons e after =>
            obtain rfl : e = b := by simpa using head
            simp [List.isPrefixOf]

/-- The token at the front of a text depends on its own characters alone, as long as the text
behind it does not go on with it. -/
theorem Fronts.stable {source after other : List Char} {token : Token}
    (fronts : Fronts source after token) (alike : EndsAlike after other)
    (lone : token = .not → membershipAfter? other = none) : Fronts source other token := by
  cases fronts with
  | symbol found =>
    apply Fronts.symbol
    obtain ⟨front, before, behind, split, earlier⟩ := List.find?_eq_some_iff_append.mp found
    refine List.find?_eq_some_iff_append.mpr ⟨?_, before, behind, split, ?_⟩
    · exact List.isPrefixOf_iff_prefix.mpr (List.prefix_append source other)
    · intro symbol member
      have failed := earlier symbol member
      cases source with
      | nil =>
        have empty := List.mem_of_find?_eq_some found
        simp [Token.symbols] at empty
      | cons c source =>
        by_contra front
        have front : symbol.1.isPrefixOf (c :: source ++ other) = true := by simpa using front
        have listed : symbol ∈ Token.symbols := by simp [split, member]
        rw [symbol_front alike listed front] at failed
        simp at failed
  | literal quoted spelling => exact .literal quoted spelling
  | integer all read stops point =>
    exact .integer all read (alike.stopsDigit stops) (alike.startsFraction point)
  | float all decimals start some stops =>
    exact .float all decimals start some (alike.stopsDigit stops)
  | keyword start all stops keyword _ =>
    exact .keyword start all (alike.stopsNamePart stops) keyword lone
  | notIn start all keyword some blank membership stops =>
    exact .notIn start all keyword some blank membership (alike.stopsNamePart stops)
  | name start all stops keyword =>
    exact .name start all (alike.stopsNamePart stops) keyword

end PullQuery.Query.Lexeme
