import PullQuery.Proofs.Query.Durations
import PullQuery.Proofs.Query.Tokens

/-! Reading a text with placed literals. Each of them is one token, and the tokens between them are
read from the same characters whatever the literals say, so the tokens of the text are known up to
the values as soon as they are known for some values. -/
namespace PullQuery.Query
open PullQuery.Text QuoteState Lexeme

def Token.isText : Token → Bool
  | .text _ => true
  | _ => false

namespace Lexeme

private theorem quoteFree_symbols {symbol : List Char × Token} (member : symbol ∈ Token.symbols) :
    ∀ c ∈ symbol.1, isQuote c = false := by
  have all : Token.symbols.all (fun symbol => symbol.1.all (!isQuote ·)) = true := by
    decide
  have checked := List.all_eq_true.mp all symbol member
  simpa using checked

theorem isQuote_of_isNamePart {c : Char} (part : isNamePart c = true) : isQuote c = false := by
  cases quote : isQuote c with
  | false => rfl
  | true => simp [isNamePart_of_isQuote quote] at part

theorem isQuote_of_isNameStart {c : Char} (start : isNameStart c = true) : isQuote c = false := by
  cases quote : isQuote c with
  | false => rfl
  | true => simp [isNameStart_of_isQuote quote] at start

theorem isQuote_of_isBlank {c : Char} (blank : isBlank c = true) : isQuote c = false := by
  cases quote : isQuote c with
  | false => rfl
  | true =>
    simp only [isQuote, Bool.or_eq_true, beq_iff_eq] at quote
    rcases quote with rfl | rfl <;> revert blank <;> decide

theorem IsMembership.quoteFree {word : List Char} (membership : IsMembership word) :
    ∀ c ∈ word, isQuote c = false := by
  rcases membership with rfl | rfl <;> simp [isQuote]

private theorem not_text_of_symbol {symbol : List Char × Token} (member : symbol ∈ Token.symbols)
    (s : String) : symbol.2 ≠ .text s := by
  have all : Token.symbols.all (fun symbol => !symbol.2.isText) = true := by decide
  intro same
  have checked := List.all_eq_true.mp all symbol member
  simp [same, Token.isText] at checked

private theorem not_text_of_keyword? {word : List Char} {token : Token}
    (keyword : keyword? word = some token) (s : String) : token ≠ .text s := by
  obtain ⟨entry, found, rfl⟩ := Option.map_eq_some_iff.mp keyword
  have all : Token.keywords.all (fun keyword => !keyword.2.isText) = true := by decide
  intro same
  have checked := List.all_eq_true.mp all entry (List.mem_of_find?_eq_some found)
  simp [same, Token.isText] at checked

/-- A token is a literal, or it is no text and its source holds no quote. -/
theorem Fronts.literal_or_plain {source after : List Char} {token : Token}
    (fronts : Fronts source after token) :
    (∃ quote body content, isQuote quote = true ∧ source = quote :: (body ++ [quote]) ∧
        Spelling quote body content ∧ token = .text (String.ofList content)) ∨
      (∀ s, token ≠ .text s) ∧ ∀ c ∈ source, isQuote c = false := by
  cases fronts with
  | symbol found =>
    have member := List.mem_of_find?_eq_some found
    exact .inr ⟨not_text_of_symbol member, quoteFree_symbols member⟩
  | literal quoted spelling => exact .inl ⟨_, _, _, quoted, rfl, spelling, rfl⟩
  | integer all => exact .inr ⟨by simp, fun c member => isQuote_of_isDigit (all c member)⟩
  | float all decimals =>
    refine .inr ⟨by simp, fun c member => ?_⟩
    rcases List.mem_append.mp member with whole | fraction
    · exact isQuote_of_isDigit (all c whole)
    · rcases List.mem_cons.mp fraction with rfl | fraction
      · rfl
      · exact isQuote_of_isDigit (decimals c fraction)
  | keyword start all stops keyword =>
    refine .inr ⟨not_text_of_keyword? keyword, fun c member => ?_⟩
    rcases List.mem_cons.mp member with rfl | part
    · exact isQuote_of_isNameStart start
    · exact isQuote_of_isNamePart (all c part)
  | name start all =>
    refine .inr ⟨by simp, fun c member => ?_⟩
    rcases List.mem_cons.mp member with rfl | part
    · exact isQuote_of_isNameStart start
    · exact isQuote_of_isNamePart (all c part)
  | notIn start all keyword some blank membership =>
    refine .inr ⟨by simp, fun c member => ?_⟩
    rcases List.mem_cons.mp member with rfl | rest
    · exact isQuote_of_isNameStart start
    · rcases List.mem_append.mp rest with part | rest
      · exact isQuote_of_isNamePart (all c part)
      · rcases List.mem_append.mp rest with blanks | word
        · exact isQuote_of_isBlank (blank c blanks)
        · exact membership.quoteFree c word

theorem Fronts.unique {source after other left : List Char} {token found : Token}
    (fronts : Fronts source after token) (others : Fronts other left found)
    (same : source ++ after = other ++ left) :
    source = other ∧ after = left ∧ token = found := by
  obtain ⟨c, run, rfl, read⟩ := fronts.scan_ok
  obtain ⟨d, more, rfl, again⟩ := others.scan_ok
  obtain ⟨rfl, rest⟩ : c = d ∧ run ++ after = more ++ left := List.cons.inj same
  rw [rest, again] at read
  obtain ⟨rfl, size⟩ : found = token ∧ more.length = run.length := by simpa using read
  obtain ⟨rfl, rfl⟩ := List.append_inj rest size.symm
  exact ⟨rfl, rfl, rfl⟩

theorem Fronts.of_keyword {source after : List Char} {token : Token}
    (fronts : Fronts source after token) (known : token = .not ∨ token = .isIn) :
    keyword? source = some token ∧ StopsRun isNamePart after ∧
      (token = .not → membershipAfter? after = none) := by
  cases fronts with
  | keyword start all stops keyword lone => exact ⟨keyword, stops, lone⟩
  | symbol found =>
    have member := List.mem_of_find?_eq_some found
    rcases known with rfl | rfl <;> simp [Token.symbols] at member
  | literal | integer | float | notIn | name => simp at known

theorem Fronts.lone {source after : List Char} (fronts : Fronts source after .not) :
    membershipAfter? after = none := (fronts.of_keyword (.inl rfl)).2.2 rfl

end Lexeme

section Trace
variable {α : Type}

private theorem endsAlike_text (meaning other : α → String) (trace : Trace α) :
    EndsAlike (trace.text meaning) (trace.text other) := by
  refine .inr ⟨by rw [Trace.head?_text, Trace.head?_text], ?_⟩
  intro point
  match trace with
  | [] => rfl
  | .placed source value :: trace => simp [Segment.text, asLiteral] at point
  | .kept c :: trace =>
    show (Trace.text meaning trace).head? = (Trace.text other trace).head?
    rw [Trace.head?_text, Trace.head?_text]

private theorem membershipAfter?_text {meaning : α → String} {trace : Trace α}
    (apart : Trace.Apart outside trace) (lone : membershipAfter? (trace.text meaning) = none)
    (other : α → String) : membershipAfter? (trace.text other) = none := by
  cases found : membershipAfter? (trace.text other) with
  | none => rfl
  | some width =>
    obtain ⟨blanks, word, rest, split, -, blank, membership, stops⟩ := membershipAfter?_some found
    have plain : ∀ c ∈ blanks ++ word, isQuote c = false := by
      intro c member
      rcases List.mem_append.mp member with inside | inside
      · exact isQuote_of_isBlank (blank c inside)
      · exact membership.quoteFree c inside
    rw [← List.append_assoc] at split
    obtain ⟨behind, rfl, rfl, -⟩ := apart.split split (opensNone_of_quoteFree plain _)
    have ends := (endsAlike_text other meaning behind).stopsNamePart stops
    rw [Trace.text_append, Trace.text_kept, List.append_assoc,
      membershipAfter?_word blank membership ends] at lone
    simp at lone

/-- The token at the front of a trace is a placed literal, or it is kept whatever was placed. -/
theorem fronts_text {meaning : α → String} {trace : Trace α} {source after : List Char}
    {token : Token} (apart : Trace.Apart outside trace) (fronts : Fronts source after token)
    (split : trace.text meaning = source ++ after) :
    (∃ stood value behind, trace = .placed stood value :: behind ∧ token = .text (meaning value) ∧
        after = Trace.text meaning behind ∧ Trace.Apart outside behind) ∨
      ∃ behind, trace = Trace.kept source ++ behind ∧ after = Trace.text meaning behind ∧
        Trace.Apart outside behind ∧
        ∀ other : α → String, Fronts source (Trace.text other behind) token := by
  match trace with
  | [] =>
    obtain ⟨c, run, rfl, -⟩ := fronts.scan_ok
    simp at split
  | .placed stood value :: behind =>
    have literal := fronts_asLiteral (meaning value).toList (Trace.text meaning behind)
    obtain ⟨-, rfl, rfl⟩ := fronts.unique literal split.symm
    exact .inl ⟨stood, value, behind, rfl, by rw [String.ofList_toList], rfl, apart.2⟩
  | .kept c :: trace =>
    refine .inr ?_
    rcases fronts.literal_or_plain with
      ⟨quote, body, content, quoted, rfl, spelling, rfl⟩ | ⟨-, plain⟩
    · obtain ⟨rfl, rest⟩ : c = quote ∧ Trace.text meaning trace = body ++ [quote] ++ after := by
        simpa [Segment.text] using split
      have inner : Trace.Apart (inside c) trace := by rwa [Trace.Apart, next_quote quoted] at apart
      obtain ⟨within, ends⟩ := spelling.within
      have closing : (inside c).Within (body ++ [c]) :=
        within_append.mpr ⟨within, by simp [ends], trivial⟩
      obtain ⟨behind, rfl, rfl, apart⟩ := inner.split rest closing.opensNone
      have outer : (inside c).after (body ++ [c]) = outside := by
        simp [after_append, ends, next_closing quoted]
      exact ⟨behind, rfl, rfl, outer ▸ apart, fun _ => .literal quoted spelling⟩
    · obtain ⟨behind, same, rfl, apart⟩ := apart.split split (opensNone_of_quoteFree plain _)
      rw [after_quoteFree plain] at apart
      refine ⟨behind, same, rfl, apart, fun other => ?_⟩
      refine fronts.stable (endsAlike_text meaning other behind) ?_
      rintro rfl
      exact membershipAfter?_text apart fronts.lone other

def tokenOf (meaning : α → String) : Token ⊕ α → Token
  | .inl token => token
  | .inr value => .text (meaning value)

/-- A text with placed literals has the same tokens, up to the values, for all their meanings. -/
theorem Lexes.placed {meaning : α → String} {trace : Trace α} {tokens : List Token}
    (apart : Trace.Apart outside trace) (lexes : Lexes (trace.text meaning) tokens) :
    ∃ shape : List (Token ⊕ α), tokens = shape.map (tokenOf meaning) ∧
      ∀ other : α → String, Lexes (trace.text other) (shape.map (tokenOf other)) := by
  generalize said : trace.text meaning = cs at lexes
  induction lexes generalizing trace with
  | nil =>
    match trace with
    | [] => exact ⟨[], rfl, fun _ => .nil⟩
    | .kept c :: trace => simp [Segment.text] at said
    | .placed stood value :: trace => simp [Segment.text, asLiteral] at said
  | @blank c rest tokens blank lexes ih =>
    have plain := isQuote_of_isBlank blank
    have said : trace.text meaning = [c] ++ rest := said
    obtain ⟨behind, rfl, rfl, apart⟩ := apart.split said ⟨fun _ => plain, trivial⟩
    rw [after_cons, next_plain plain] at apart
    obtain ⟨shape, rfl, all⟩ := ih apart rfl
    exact ⟨shape, rfl, fun other => .blank blank (all other)⟩
  | @token source after token tokens fronts lexes ih =>
    obtain ⟨stood, value, behind, rfl, rfl, rfl, apart⟩ | ⟨behind, rfl, rfl, apart, stable⟩ :=
      fronts_text apart fronts said
    · obtain ⟨shape, rfl, all⟩ := ih apart rfl
      refine ⟨.inr value :: shape, rfl, fun other => ?_⟩
      have literal := fronts_asLiteral (other value).toList (Trace.text other behind)
      rw [String.ofList_toList] at literal
      exact .token literal (all other)
    · obtain ⟨shape, rfl, all⟩ := ih apart rfl
      refine ⟨.inl token :: shape, rfl, fun other => ?_⟩
      rw [Trace.text_append, Trace.text_kept]
      exact .token (stable other) (all other)

end Trace
end PullQuery.Query
