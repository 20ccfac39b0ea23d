import PullQuery.Proofs.Query.Cuts
import Mathlib.Data.List.Chain
import Mathlib.Tactic.FinCases

/-! Every token is read from every way to write it. Tokens written one after the other with blanks
between them are read back as these tokens, however each of them is spelled; only a NOT in front of an
IN would be read together with it. -/
namespace PullQuery.Query
open PullQuery.Number PullQuery.Text Lexeme

namespace Token

def words : Token → List (List Char)
  | boolean true => [['t', 'r', 'u', 'e']]
  | boolean false => [['f', 'a', 'l', 's', 'e']]
  | null => [['n', 'u', 'l', 'l']]
  | equal => [['=']]
  | doubleEqual => [['=', '=']]
  | notEqual => [['!', '=']]
  | lessGreater => [['<', '>']]
  | tilde => [['~']]
  | less => [['<']]
  | greater => [['>']]
  | lessEqual => [['<', '=']]
  | greaterEqual => [['>', '=']]
  | isIn => [['I', 'N'], ['i', 'n']]
  | not => [['N', 'O', 'T'], ['n', 'o', 't']]
  | and => [['A', 'N', 'D'], ['a', 'n', 'd'], ['&', '&']]
  | or => [['O', 'R'], ['o', 'r'], ['|', '|']]
  | plus => [['+']]
  | minus => [['-']]
  | openParen => [['(']]
  | closeParen => [[')']]
  | comma => [[',']]
  | _ => []

/-- The ways to write any token but a float: a content in quotes of either kind, with these and the
backslashes escaped, digits with any value that fits, a name, and the two words of NOT IN apart. -/
inductive Spelled : Token → List Char → Prop
  | word {token : Token} {source : List Char} (listed : source ∈ token.words) : Spelled token source
  | notIn {negation blanks membership : List Char} (first : negation ∈ words not)
      (some : blanks ≠ []) (blank : ∀ c ∈ blanks, isBlank c = true)
      (second : membership ∈ words isIn) : Spelled notIn (negation ++ (blanks ++ membership))
  | integer {n : Int64} {digits : List Char} (some : digits ≠ [])
      (all : ∀ c ∈ digits, c.isDigit = true) (value : digitsValue digits = n.toInt) :
      Spelled (integer n) digits
  | text {quote : Char} {body content : List Char} (quoted : isQuote quote = true)
      (spelling : Spelling quote body content) :
      Spelled (text (String.ofList content)) (quote :: (body ++ [quote]))
  | name {word : List Char} (isName : IsName word) : Spelled (name (String.ofList word)) word

end Token

inductive Written : List Token → List Char → Prop
  | nil : Written [] []
  | single {token : Token} {source : List Char} (spelled : token.Spelled source) :
      Written [token] source
  | cons {token next : Token} {tokens : List Token} {source blanks text : List Char}
      (spelled : token.Spelled source) (some : blanks ≠ []) (blank : ∀ c ∈ blanks, isBlank c = true)
      (behind : Written (next :: tokens) text) :
      Written (token :: next :: tokens) (source ++ (blanks ++ text))

private theorem Token.mem_of_words {token : Token} {source : List Char}
    (listed : source ∈ token.words) :
    (source, token) ∈ symbols ∨ (source, token) ∈ keywords := by
  cases token with
  | boolean b => cases b <;> simpa [words, symbols, keywords] using listed
  | integer | float | text | name | notIn => simp [words] at listed
  | and | or =>
    simp only [words, List.mem_cons, List.not_mem_nil, or_false] at listed
    rcases listed with rfl | rfl | rfl <;> simp [symbols, keywords]
  | _ => simpa [words, symbols, keywords] using listed

private theorem fronts_of_mem_symbols {source : List Char} {token : Token}
    (known : (source, token) ∈ Token.symbols) : Fronts source [] token := by
  fin_cases known <;> exact .symbol rfl

private theorem fronts_of_mem_keywords {source : List Char} {token : Token}
    (known : (source, token) ∈ Token.keywords) : Fronts source [] token := by
  fin_cases known <;>
    exact .keyword (by decide) (by simp; decide) (by simp [StopsRun]) rfl fun _ => rfl

theorem Token.Spelled.fronts {token : Token} {source : List Char} (spelled : token.Spelled source) :
    Fronts source [] token := by
  have ends (p : Char → Bool) : StopsRun p [] := by simp [StopsRun]
  cases spelled with
  | word listed =>
    rcases mem_of_words listed with known | known
    · exact fronts_of_mem_symbols known
    · exact fronts_of_mem_keywords known
  | @notIn negation blanks membership first some blank second =>
    replace second : IsMembership membership := by
      simpa [words, IsMembership] using second
    simp only [words, List.mem_cons, List.not_mem_nil, or_false] at first
    rcases first with rfl | rfl <;>
      exact .notIn (by decide) (by simp; decide) rfl some blank second (ends _)
  | @integer n _ some all value =>
    have read : readWord? source = .some n := by
      rw [readWord?, if_pos ⟨some, List.all_eq_true.mpr all⟩, value, word?_toInt]
    exact .integer all read (ends _) rfl
  | text quoted spelling => exact .literal quoted spelling
  | name isName => exact isName.fronts (ends _)

theorem breaks_blanks {blanks text : List Char} (some : blanks ≠ [])
    (blank : ∀ c ∈ blanks, isBlank c = true) : Breaks (blanks ++ text) := by
  obtain ⟨c, rest, rfl⟩ := List.exists_cons_of_ne_nil some
  rintro d ⟨⟩
  have white := blank c (.head _)
  refine ⟨isNamePart_of_isBlank white, ?_⟩
  have visible : extenders.all (fun c => !isBlank c) = true := by decide
  intro extends_
  have plain := List.all_eq_true.mp visible c extends_
  simp [white] at plain

theorem lexes_blanks {blanks text : List Char} {tokens : List Token}
    (blank : ∀ c ∈ blanks, isBlank c = true) (lexes : Lexes text tokens) :
    Lexes (blanks ++ text) tokens := by
  induction blanks with
  | nil => exact lexes
  | cons c blanks ih =>
    exact .blank (blank c (.head _)) (ih fun d member => blank d (.tail _ member))

private theorem Written.lexes {tokens : List Token} {cs : List Char} (written : Written tokens cs)
    (apart : tokens.IsChain fun token next => token = .not → next ≠ .isIn) : Lexes cs tokens := by
  induction written with
  | nil => exact .nil
  | @single token source spelled =>
    have lexes := Lexes.token spelled.fronts .nil
    rwa [List.append_nil] at lexes
  | @cons token next tokens source blanks text spelled some blank behind ih =>
    obtain ⟨parted, rest⟩ := List.isChain_cons_cons.mp apart
    have lexes := lexes_blanks blank (ih rest)
    refine .token (spelled.fronts.stable (.inl (breaks_blanks some blank)) fun negates => ?_) lexes
    -- A word NOT looks behind the blanks, and what is read there begins with another token than IN.
    have other : ¬ (membershipAfter? (blanks ++ text)).isSome = true := by
      simpa [lexes.isSome_membershipAfter?] using parted negates
    simpa using other

/-- What is written for some tokens is read as these tokens, and the literal of a text as the text. -/
theorem tokenize_written :
    (∀ {tokens : List Token} {cs : List Char}, Written tokens cs →
      (tokens.IsChain fun token next => token = .not → next ≠ .isIn) → tokenize cs = .ok tokens) ∧
    ∀ s : String, tokenize (asLiteral s.toList) = .ok [.text s] := by
  constructor
  · intro tokens cs written apart
    exact tokenize_iff.mpr (written.lexes apart)
  · intro s
    have literal : Token.Spelled (.text (String.ofList s.toList)) (asLiteral s.toList) :=
      @Token.Spelled.text '"' _ _ rfl (spelling_escapeQuoted s.toList)
    rw [String.ofList_toList] at literal
    exact tokenize_iff.mpr ((Written.single literal).lexes (List.isChain_singleton _))

theorem tokenize_written_not_before_not_in :
    let tokens : List Token := [.not, .notIn, .text "a\"\tb", .and, .name "é$1", .integer 7]
    let cs := "NOT not \t IN 'a\"\\tb' &&\u00a0é$1\n007".toList
    Written tokens cs ∧ (tokens.IsChain fun token next => token = .not → next ≠ .isIn) ∧
      tokenize cs = .ok tokens := by
  intro tokens cs
  have content : Spelling '\'' ['a', '"', '\\', 't', 'b'] ['a', '"', '\t', 'b'] :=
    .plain _ (by decide) (by decide) (.plain _ (by decide) (by decide)
      (.escape 't' '\t' rfl (.plain _ (by decide) (by decide) .nil)))
  have name : IsName ['é', '$', '1'] :=
    ⟨⟨'é', ['$', '1'], rfl, by decide +kernel, List.all_eq_true.mp (by decide +kernel)⟩, rfl⟩
  have space : ∀ c ∈ [' '], isBlank c = true := List.all_eq_true.mp (by decide)
  have joiner : ∀ c ∈ ['\u00a0'], isBlank c = true := List.all_eq_true.mp (by decide)
  have line : ∀ c ∈ ['\n'], isBlank c = true := List.all_eq_true.mp (by decide)
  have spaces : ∀ c ∈ [' ', '\t', ' '], isBlank c = true := List.all_eq_true.mp (by decide)
  have negation : Token.Spelled .not ['N', 'O', 'T'] := .word (by decide)
  have negated : Token.Spelled .notIn (['n', 'o', 't'] ++ ([' ', '\t', ' '] ++ ['I', 'N'])) :=
    .notIn (by decide) (by simp) spaces (by decide)
  have quoted : Token.Spelled (.text "a\"\tb") ['\'', 'a', '"', '\\', 't', 'b', '\''] :=
    .text rfl content
  have conjunction : Token.Spelled .and ['&', '&'] := .word (by decide)
  have number : Token.Spelled (.integer 7) ['0', '0', '7'] :=
    .integer (by simp) (List.all_eq_true.mp (by decide)) (by decide +kernel)
  have last := Written.cons (.name name) (by simp) line (.single number)
  have joined := Written.cons conjunction (by simp) joiner last
  have literal := Written.cons quoted (by simp) space joined
  have membership := Written.cons negated (by simp) space literal
  have written : Written tokens cs := Written.cons negation (by simp) space membership
  have apart : tokens.IsChain fun token next => token = .not → next ≠ .isIn := by decide
  exact ⟨written, apart, tokenize_written.1 written apart⟩

end PullQuery.Query
