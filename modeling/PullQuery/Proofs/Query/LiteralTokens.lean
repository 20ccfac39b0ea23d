import PullQuery.Proofs.Query.Placeholders
import PullQuery.Proofs.Text.Partition

/-! The literals of a text are its text tokens. One scan looks at single characters and knows only
quotes and backslashes, the other reads whole tokens and refuses unknown escapes; where the lexer
accepts a text, or stops at a literal that is not closed, both find the same literals. -/
namespace PullQuery.Query
open PullQuery.Text QuoteState Lexeme

def Lexeme.span (lexeme : Lexeme) : Span := ⟨lexeme.start, lexeme.stop⟩

def textSpans (lexemes : List Lexeme) : List Span :=
  (lexemes.filter (·.token.isText)).map Lexeme.span

theorem textSpans_append (first second : List Lexeme) :
    textSpans (first ++ second) = textSpans first ++ textSpans second := by
  rw [textSpans, List.filter_append, List.map_append]
  rfl

/-- The place of the literal that stopped the lexer in front of the end of a text. -/
def openSpans (stop : Nat) : Except LexError Nat → List Span
  | .error ⟨.unterminated, offset⟩ => [⟨offset, stop⟩]
  | _ => []

namespace Lexeme

private theorem leavesOpen_of_scanQuoted {quote : Char} {cs : List Char} {distance : Option Nat}
    (fault : scanQuoted quote cs = .error (.unterminated, distance)) :
    distance = none ∧ LeavesOpen quote cs := by
  fun_induction scanQuoted quote cs generalizing distance with
  | case1 =>
    obtain rfl : none = distance := by simpa using fault
    exact ⟨rfl, trivial, by simp⟩
  | case3 other =>
    obtain rfl : none = distance := by simpa using fault
    exact ⟨rfl, ⟨by simp, trivial⟩, by simp [next_backslash]⟩
  | case6 c rest meant escapes inner found read other ih =>
    obtain ⟨rfl, rfl⟩ : inner = .unterminated ∧ found.map (· + 2) = distance := by simpa using fault
    obtain ⟨rfl, within, ends⟩ := ih read
    refine ⟨rfl, (within_escape c).mpr within, ?_⟩
    rwa [after_escape]
  | case8 c rest notQuote notEscape inner found read ih =>
    obtain ⟨rfl, rfl⟩ : inner = .unterminated ∧ found.map (· + 1) = distance := by simpa using fault
    obtain ⟨rfl, within, ends⟩ := ih read
    refine ⟨rfl, (within_inner notQuote notEscape).mpr within, ?_⟩
    rwa [after_inner notQuote notEscape]
  | _ => simp at fault

private theorem scanNumber_ne_unterminated (cs : List Char) :
    scanNumber cs ≠ .error .unterminated := by
  intro fault
  obtain ⟨whole, rest, rfl, digits, stops, point | ⟨fraction, after, rfl, some, decimals, ends⟩⟩ :=
    digits_shape cs
  · rw [scanNumber_whole digits stops point] at fault
    cases read : Number.readWord? whole <;> simp [read] at fault
  · rw [scanNumber_fraction digits decimals some ends] at fault
    simp at fault

theorem leavesOpen_of_scan {c : Char} {rest : List Char} {distance : Nat}
    (fault : scan c rest = .error (.unterminated, distance)) :
    isQuote c = true ∧ distance = 0 ∧ LeavesOpen c rest := by
  unfold scan at fault
  split at fault
  · simp at fault
  · split at fault
    · rename_i quoted
      split at fault
      · simp at fault
      · rename_i inner found read
        obtain ⟨rfl, rfl⟩ : inner = .unterminated ∧ found.elim 0 (· + 1) = distance := by
          simpa using fault
        obtain ⟨rfl, leavesOpen⟩ := leavesOpen_of_scanQuoted read
        exact ⟨quoted, rfl, leavesOpen⟩
    · split at fault
      · cases read : scanNumber (c :: rest) with
        | ok token => simp [read, Except.mapError] at fault
        | error inner =>
          obtain ⟨rfl, -⟩ : inner = .unterminated ∧ 0 = distance := by
            simpa [read, Except.mapError] using fault
          exact absurd read (scanNumber_ne_unterminated _)
      · split at fault <;> simp at fault

theorem Fronts.spansFrom {source after : List Char} {token : Token}
    (fronts : Fronts source after token) (offset opened : Nat) :
    outside.after source = outside ∧
      Text.spansFrom offset opened .outside source =
        textSpans [⟨offset, offset + source.length, token⟩] := by
  rcases fronts.literal_or_plain with ⟨quote, body, content, quoted, rfl, spelling, rfl⟩ | ⟨plain, free⟩
  · have isBody : IsBody quote body := spelling.within
    refine ⟨isBody.after_literal quoted, ?_⟩
    rw [spansFrom_literal quoted isBody]
    simp [textSpans, Token.isText, Lexeme.span]
  · refine ⟨after_quoteFree free, ?_⟩
    have noText : token.isText = false := by
      cases token with
      | text s => exact absurd rfl (plain s)
      | _ => rfl
    simp [spansFrom_quoteFree free, textSpans, noText]

end Lexeme

/-- From any place outside of the literals both scans find the same ones. -/
theorem spansFrom_eq_textSpans (offset opened : Nat) (cs : List Char)
    (known : ∀ error, (streamFrom offset 0 cs).ending = .error error → error.fault = .unterminated) :
    spansFrom offset opened .outside cs =
      textSpans (streamFrom offset 0 cs).lexemes ++
        openSpans (offset + cs.length) (streamFrom offset 0 cs).ending := by
  induction offset, cs using stream_induction generalizing opened with
  | nil => rfl
  | @blank offset c rest blank ih =>
    rw [streamFrom_blank offset blank] at known ⊢
    rw [spansFrom, next_plain (isQuote_of_isBlank blank), ih offset known, List.length_cons]
    congr 2
    omega
  | @fault offset c rest fault distance scanned failed =>
    obtain rfl : fault = .unterminated := known _ (by rw [failed])
    obtain ⟨quoted, rfl, leavesOpen⟩ := leavesOpen_of_scan scanned
    rw [failed, spansFrom_open quoted leavesOpen]
    rfl
  | @token offset source after token fronts ih =>
    obtain ⟨outer, found⟩ := fronts.spansFrom offset opened
    rw [streamFrom_fronts offset fronts] at known ⊢
    rw [spansFrom_append outer offset opened 0, found, ih 0 known, ← List.append_assoc,
      ← textSpans_append, List.length_append, ← Nat.add_assoc]
    rfl

/-- Where the lexer accepts a text its literals are the text tokens, and where it stops at a literal
that is not closed they are the text tokens in front and that literal, up to the end. -/
theorem literalSpans_eq_textSpans (cs : List Char) :
    (∀ tokens, tokenize cs = .ok tokens →
        (tokensOf cs).lexemes.map (·.token) = tokens ∧
          literalSpans cs = textSpans (tokensOf cs).lexemes) ∧
      ∀ offset, tokenize cs = .error ⟨.unterminated, offset⟩ →
        literalSpans cs = textSpans (tokensOf cs).lexemes ++ [⟨offset, cs.length⟩] := by
  have agree : (∀ error, (tokensOf cs).ending = .error error → error.fault = .unterminated) →
      literalSpans cs =
        textSpans (tokensOf cs).lexemes ++ openSpans cs.length (tokensOf cs).ending := by
    have found := spansFrom_eq_textSpans 0 0 cs
    rwa [Nat.zero_add] at found
  constructor
  · intro tokens read
    cases ending : (tokensOf cs).ending with
    | error error => simp [tokenize, ending, Except.map] at read
    | ok stop =>
      refine ⟨by simpa [tokenize, ending, Except.map] using read, ?_⟩
      simpa [ending, openSpans] using agree
  · intro offset read
    cases ending : (tokensOf cs).ending with
    | ok stop => simp [tokenize, ending, Except.map] at read
    | error error =>
      obtain rfl : error = ⟨.unterminated, offset⟩ := by
        simpa [tokenize, ending, Except.map] using read
      simpa [ending, openSpans] using agree

theorem literalSpans_eq_textSpans_escaped_quotes :
    (tokenize "a = \"b\\\"'c\" OR NOT 'd'".toList =
          .ok [.name "a", .equal, .text "b\"'c", .or, .not, .text "d"] ∧
        (tokensOf "a = \"b\\\"'c\" OR NOT 'd'".toList).lexemes.map (·.token) =
          [.name "a", .equal, .text "b\"'c", .or, .not, .text "d"] ∧
        literalSpans "a = \"b\\\"'c\" OR NOT 'd'".toList =
          textSpans (tokensOf "a = \"b\\\"'c\" OR NOT 'd'".toList).lexemes) ∧
      tokenize "é ~ \"b\" 'd\\'".toList = .error ⟨.unterminated, 8⟩ ∧
        literalSpans "é ~ \"b\" 'd\\'".toList =
          textSpans (tokensOf "é ~ \"b\" 'd\\'".toList).lexemes ++
            [⟨8, "é ~ \"b\" 'd\\'".toList.length⟩] := by
  have read : tokenize "a = \"b\\\"'c\" OR NOT 'd'".toList =
      .ok [.name "a", .equal, .text "b\"'c", .or, .not, .text "d"] := by decide +kernel
  have stops : tokenize "é ~ \"b\" 'd\\'".toList = .error ⟨.unterminated, 8⟩ := by decide +kernel
  exact ⟨⟨read, (literalSpans_eq_textSpans _).1 _ read⟩, stops,
    (literalSpans_eq_textSpans _).2 _ stops⟩

end PullQuery.Query
