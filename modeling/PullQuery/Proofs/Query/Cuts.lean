import PullQuery.Proofs.Query.Placeholders

/-! Texts cut into their tokens, and how much of a text the token in front of it tells: the token is
the only one there, the tokens behind it are those of the text behind it, and a word is never spelled
by a part of itself. -/
namespace PullQuery.Query
open PullQuery.Text Lexeme

structure Cut where
  source : List Char
  token : Token
  after : List Char

inductive Cuts : List Char → List Cut → Prop
  | nil : Cuts [] []
  | blank {c : Char} {rest : List Char} {cuts : List Cut} (blank : isBlank c = true)
      (behind : Cuts rest cuts) : Cuts (c :: rest) cuts
  | token {source after : List Char} {token : Token} {cuts : List Cut}
      (fronts : Fronts source after token) (behind : Cuts after cuts) :
      Cuts (source ++ after) (⟨source, token, after⟩ :: cuts)

def Lexeme.cut (cs : List Char) (lexeme : Lexeme) : Cut :=
  ⟨(cs.drop lexeme.start).take (lexeme.stop - lexeme.start), lexeme.token, cs.drop lexeme.stop⟩

private theorem cuts_of_streamFrom {before cs : List Char} {stop : Nat}
    (ok : (streamFrom before.length 0 cs).ending = .ok stop) :
    Cuts cs ((streamFrom before.length 0 cs).lexemes.map (Lexeme.cut (before ++ cs))) := by
  generalize place : before.length = offset at ok ⊢
  induction offset, cs using stream_induction generalizing before with
  | nil => exact .nil
  | @blank offset c rest blank ih =>
    rw [streamFrom_blank offset blank] at ok ⊢
    refine .blank blank ?_
    simpa using @ih (before ++ [c]) (by simp [place]) ok
  | fault scanned failed => simp [failed] at ok
  | @token offset source after token fronts ih =>
    subst place
    rw [streamFrom_fronts before.length fronts] at ok ⊢
    have first : Lexeme.cut (before ++ (source ++ after))
        ⟨before.length, before.length + source.length, token⟩ = ⟨source, token, after⟩ := by
      have behind : (before ++ (source ++ after)).drop (before.length + source.length) =
          after := by rw [← List.append_assoc, ← List.length_append, List.drop_left]
      simp [Lexeme.cut, behind]
    rw [List.map_cons, first]
    refine .token fronts ?_
    simpa using @ih (before ++ source) (by simp) ok

def cutsOf (cs : List Char) : List Cut := (tokensOf cs).lexemes.map (Lexeme.cut cs)

theorem cuts_cutsOf {cs : List Char} {tokens : List Token} (read : tokenize cs = .ok tokens) :
    Cuts cs (cutsOf cs) := by
  unfold tokenize at read
  cases ending : (tokensOf cs).ending with
  | error fault => simp [ending, Except.map] at read
  | ok stop => exact @cuts_of_streamFrom [] cs stop ending

theorem Lexes.uncons {c : Char} {rest : List Char} {tokens : List Token}
    (lexes : Lexes (c :: rest) tokens) :
    isBlank c = true ∧ Lexes rest tokens ∨
      ∃ source after token others, c :: rest = source ++ after ∧ tokens = token :: others ∧
        Fronts source after token ∧ Lexes after others := by
  generalize text : c :: rest = cs at lexes
  cases lexes with
  | nil => simp at text
  | blank blank behind =>
    obtain ⟨rfl, rfl⟩ := List.cons.inj text
    exact .inl ⟨blank, behind⟩
  | token fronts behind => exact .inr ⟨_, _, _, _, rfl, rfl, fronts, behind⟩

theorem Lexeme.Fronts.exists_cons {source after : List Char} {token : Token}
    (fronts : Fronts source after token) : ∃ c run, source = c :: run ∧ isBlank c = false := by
  obtain ⟨c, run, rfl, read⟩ := fronts.scan_ok
  refine ⟨c, run, rfl, ?_⟩
  cases blank : isBlank c with
  | false => rfl
  | true => simp [scan_blank blank] at read

theorem Lexeme.Fronts.lexes_iff {source after : List Char} {token found : Token}
    {tokens : List Token} (fronts : Fronts source after token) :
    Lexes (source ++ after) (found :: tokens) ↔ found = token ∧ Lexes after tokens := by
  constructor
  · intro lexes
    obtain ⟨c, run, rfl, blank⟩ := fronts.exists_cons
    rcases lexes.uncons with ⟨other, -⟩ | ⟨source, rest, token, others, split, same, front, behind⟩
    · simp [blank] at other
    · obtain ⟨rfl, rfl⟩ := List.cons.inj same
      obtain ⟨-, rfl, rfl⟩ := fronts.unique front split
      exact ⟨rfl, behind⟩
  · rintro ⟨rfl, behind⟩
    exact .token fronts behind

theorem lexes_blank_iff {c : Char} (blank : isBlank c = true) {rest : List Char}
    {tokens : List Token} : Lexes (c :: rest) tokens ↔ Lexes rest tokens := by
  refine ⟨fun lexes => ?_, .blank blank⟩
  rcases lexes.uncons with ⟨-, behind⟩ | ⟨source, rest, token, others, split, -, fronts, -⟩
  · exact behind
  · obtain ⟨d, run, rfl, other⟩ := fronts.exists_cons
    obtain ⟨rfl, -⟩ := List.cons.inj split
    simp [blank] at other

theorem not_lexes_text {c : Char} {rest : List Char} {s : String} {tokens : List Token}
    (start : isNameStart c = true) : ¬ Lexes (c :: rest) (.text s :: tokens) := by
  intro lexes
  rcases lexes.uncons with ⟨blank, -⟩ | ⟨source, rest, token, others, split, same, fronts, -⟩
  · have read := scan_nameStart start rest
    simp [scan_blank blank] at read
  · obtain ⟨rfl, rfl⟩ := List.cons.inj same
    rcases fronts.literal_or_plain with ⟨quote, body, content, quoted, rfl, -⟩ | ⟨other, -⟩
    · obtain ⟨rfl, -⟩ := List.cons.inj split
      simp [isNameStart_of_isQuote quoted] at start
    · exact other s rfl

namespace Lexeme

theorem mem_keywords {word : List Char} {token : Token} (keyword : keyword? word = some token) :
    (word, token) ∈ Token.keywords := by
  obtain ⟨⟨spelling, meant⟩, found, rfl⟩ := Option.map_eq_some_iff.mp keyword
  obtain rfl : spelling = word := by simpa using List.find?_some found
  exact List.mem_of_find?_eq_some found

theorem mem_symbols {source text : List Char} {token : Token}
    (found : Token.symbols.find? (fun symbol => symbol.1.isPrefixOf text) = some (source, token)) :
    (source, token) ∈ Token.symbols := List.mem_of_find?_eq_some found

private theorem isNameStart_of_symbol {source : List Char} {token : Token}
    (member : (source, token) ∈ Token.symbols) : ∀ c ∈ source, isNameStart c = false := by
  have all : Token.symbols.all (fun symbol => symbol.1.all (!isNameStart ·)) = true := by
    decide
  have checked := List.all_eq_true.mp all _ member
  simpa using checked

private theorem keyword_eq_of_prefix {part whole : List Char} {token : Token}
    (first : (part, token) ∈ Token.keywords) (second : (whole, token) ∈ Token.keywords)
    (front : part <+: whole) : part = whole := by
  have all : Token.keywords.all (fun first => Token.keywords.all fun second =>
      !(first.2 == second.2 && first.1.isPrefixOf second.1) || first.1 == second.1) = true := by
    decide
  have checked := List.all_eq_true.mp (List.all_eq_true.mp all _ first) _ second
  simpa [List.isPrefixOf_iff_prefix.mpr front] using checked

theorem length_not {word : List Char} (keyword : keyword? word = some .not) : word.length = 3 := by
  have member := mem_keywords keyword
  have spelled : word = ['N', 'O', 'T'] ∨ word = ['n', 'o', 't'] := by
    simpa [Token.keywords] using member
  rcases spelled with rfl | rfl <;> rfl

private theorem IsMembership.stops {word : List Char} (membership : IsMembership word)
    (rest : List Char) : StopsRun isBlank (word ++ rest) := by
  rcases membership with rfl | rfl <;> simp [StopsRun] <;> decide

private theorem IsMembership.length {word : List Char} (membership : IsMembership word) :
    word.length = 2 := by
  rcases membership with rfl | rfl <;> rfl

private theorem notIn_eq_of_prefix {c d : Char} {run more blanks others word last rest : List Char}
    (first : keyword? (c :: run) = some .not) (second : keyword? (d :: more) = some .not)
    (blank : ∀ e ∈ blanks, isBlank e = true) (between : ∀ e ∈ others, isBlank e = true)
    (membership : IsMembership word) (ends : IsMembership last)
    (split : c :: (run ++ (blanks ++ word)) ++ rest = d :: (more ++ (others ++ last))) :
    c :: (run ++ (blanks ++ word)) = d :: (more ++ (others ++ last)) := by
  have split : (c :: run) ++ (blanks ++ (word ++ rest)) = (d :: more) ++ (others ++ (last ++ [])) := by
    simpa using split
  have size := (length_not first).trans (length_not second).symm
  obtain ⟨words, behind⟩ := List.append_inj split size
  obtain ⟨rfl, same⟩ := run_unique behind blank (membership.stops rest) between (ends.stops [])
  have size := membership.length.trans ends.length.symm
  obtain ⟨rfl, -⟩ := List.append_inj same size
  simpa using congrArg (· ++ (blanks ++ word)) words

theorem Fronts.eq_of_prefix {part source left after : List Char} {token : Token}
    (fronts : Fronts source after token) (found : Fronts part left token) (front : part <+: source)
    (other : ∀ s, token ≠ .text s) (word : ∃ c ∈ source, isNameStart c = true) : part = source := by
  obtain ⟨c, member, start⟩ := word
  -- Names tell their characters. Keywords have two spellings, but neither begins the other, and
  -- NOT IN ends with its last letter however many blanks it holds.
  cases fronts with
  | symbol symbol =>
    have plain := isNameStart_of_symbol (mem_symbols symbol) c member
    simp [start] at plain
  | literal => exact absurd rfl (other _)
  | integer all =>
    have plain := isNameStart_of_isDigit (all c member)
    simp [start] at plain
  | float all decimals =>
    rcases List.mem_append.mp member with whole | fraction
    · have plain := isNameStart_of_isDigit (all c whole)
      simp [start] at plain
    · rcases List.mem_cons.mp fraction with rfl | fraction
      · exact absurd start (by decide)
      · have plain := isNameStart_of_isDigit (decimals c fraction)
        simp [start] at plain
  | keyword begins all stops keyword lone =>
    have listed := mem_keywords keyword
    cases found with
    | symbol symbol =>
      obtain ⟨d, run, rfl, -⟩ := (Fronts.symbol symbol).exists_cons
      obtain ⟨rest, split⟩ := front
      obtain ⟨rfl, -⟩ := List.cons.inj split
      have plain := isNameStart_of_symbol (mem_symbols symbol) d (.head _)
      simp [begins] at plain
    | literal => exact absurd rfl (other _)
    | integer | float | notIn | name => simp [Token.keywords] at listed
    | keyword begins all stops again lone =>
      exact keyword_eq_of_prefix (mem_keywords again) listed front
  | notIn begins all keyword some blank membership stops =>
    cases found with
    | symbol symbol =>
      have listed := mem_symbols symbol
      simp [Token.symbols] at listed
    | keyword begins all stops again lone =>
      have listed := mem_keywords again
      simp [Token.keywords] at listed
    | notIn begins all again some between ends stops =>
      obtain ⟨rest, split⟩ := front
      exact notIn_eq_of_prefix again keyword between blank ends membership split
  | name begins all stops keyword => exact found.of_name.1.trans String.toList_ofList

end Lexeme

theorem Lexes.exists_front {cs : List Char} {token : Token} {tokens : List Token}
    (lexes : Lexes cs (token :: tokens)) (stops : StopsRun isBlank cs) :
    ∃ source after, cs = source ++ after ∧ Fronts source after token := by
  generalize read : token :: tokens = found at lexes
  cases lexes with
  | nil => simp at read
  | @blank c rest found blank behind =>
    have plain : isBlank c = false := stops c rfl
    simp [blank] at plain
  | token fronts behind =>
    obtain ⟨rfl, rfl⟩ := List.cons.inj read
    exact ⟨_, _, rfl, fronts⟩

theorem not_lexes_not {source after rest : List Char} (fronts : Fronts source after .not)
    {width : Nat} (found : membershipAfter? rest = some width) {tokens : List Token} :
    ¬ Lexes (source ++ rest) (.not :: tokens) := by
  intro lexes
  obtain ⟨c, run, rfl, plain⟩ := fronts.exists_cons
  obtain ⟨word, left, split, again⟩ := lexes.exists_front (by simpa [StopsRun] using plain)
  have size := (length_not (fronts.of_keyword (.inl rfl)).1).trans
    (length_not (again.of_keyword (.inl rfl)).1).symm
  obtain ⟨-, rfl⟩ := List.append_inj split size
  simp [again.lone] at found

/-- A word is not read where a literal begins within it. -/
theorem not_lexes_broken {front behind after rest : List Char} {token : Token}
    (fronts : Fronts (front ++ behind) after token) (other : ∀ s, token ≠ .text s)
    (some : behind ≠ []) (word : ∃ c ∈ front ++ behind, isNameStart c = true)
    {tokens : List Token} : ¬ Lexes (front ++ '"' :: rest) (token :: tokens) := by
  intro lexes
  obtain ⟨c, run, same, plain⟩ := fronts.exists_cons
  have stops : StopsRun isBlank (front ++ '"' :: rest) := by
    cases front with
    | nil => simp [StopsRun]; decide
    | cons d front =>
      obtain ⟨rfl, -⟩ := List.cons.inj same
      simpa [StopsRun] using plain
  obtain ⟨part, left, split, found⟩ := lexes.exists_front stops
  have free : ∀ c ∈ part, isQuote c = false := by
    rcases found.literal_or_plain with ⟨quote, body, content, -, -, -, rfl⟩ | ⟨-, free⟩
    · exact absurd rfl (other _)
    · exact free
  obtain ⟨more, rfl, -⟩ := split_before_quote free (show isQuote '"' = true from rfl) split.symm
  have whole := fronts.eq_of_prefix found ⟨more ++ behind, by simp⟩ other word
  simp [some] at whole

theorem not_lexes_point {rest : List Char} {tokens : List Token} :
    ¬ Lexes ('.' :: rest) tokens := by
  intro lexes
  rcases lexes.uncons with ⟨blank, -⟩ | ⟨source, after, token, others, split, -, fronts, -⟩
  · revert blank
    decide
  · obtain ⟨c, run, rfl, read⟩ := fronts.scan_ok
    obtain ⟨rfl, -⟩ := List.cons.inj split
    have start : isNameStart '.' = false := by decide
    unfold scan at read
    simp [symbols_find?_eq_none (show '.' ∉ symbolStarts by decide), isQuote, start] at read

private theorem isSome_membershipAfter?_blank {c : Char} (blank : isBlank c = true)
    (rest : List Char) :
    (membershipAfter? (c :: rest)).isSome = (membershipAfter? rest).isSome := by
  unfold membershipAfter?
  rw [List.dropWhile_cons_of_pos blank]
  cases rest.dropWhile isBlank with
  | nil => rfl
  | cons d rest =>
    dsimp only
    split_ifs <;> rfl

private theorem Lexeme.Fronts.isMembership {source after : List Char}
    (fronts : Fronts source after .isIn) :
    IsMembership source ∧ StopsRun isNamePart after := by
  obtain ⟨keyword, stops, -⟩ := fronts.of_keyword (.inr rfl)
  have member := mem_keywords keyword
  exact ⟨by simpa [Token.keywords, IsMembership] using member, stops⟩

private theorem Lexeme.IsMembership.fronts {word after : List Char} (membership : IsMembership word)
    (stops : StopsRun isNamePart after) : Fronts word after .isIn := by
  rcases membership with rfl | rfl
  · exact .keyword (by decide) (by simp; decide) stops (by decide) (by simp)
  · exact .keyword (by decide) (by simp; decide) stops (by decide) (by simp)

/-- A word NOT takes along what would be read as the word IN. -/
theorem Lexes.isSome_membershipAfter? {cs : List Char} {tokens : List Token}
    (lexes : Lexes cs tokens) :
    (membershipAfter? cs).isSome = true ↔ tokens.head? = some .isIn := by
  induction lexes with
  | nil => simp [membershipAfter?]
  | blank blank lexes ih => rw [isSome_membershipAfter?_blank blank, ih]
  | @token source after token tokens fronts lexes ih =>
    constructor
    · intro found
      obtain ⟨width, found⟩ := Option.isSome_iff_exists.mp found
      obtain ⟨blanks, word, rest, split, -, blank, membership, stops⟩ := membershipAfter?_some found
      obtain ⟨c, run, rfl, plain⟩ := fronts.exists_cons
      cases blanks with
      | nil =>
        obtain ⟨-, -, rfl⟩ := fronts.unique (membership.fronts stops) split
        rfl
      | cons d blanks =>
        obtain ⟨rfl, -⟩ := List.cons.inj split
        simp [blank c (.head _)] at plain
    · intro first
      obtain rfl : token = .isIn := by simpa using first
      obtain ⟨membership, stops⟩ := fronts.isMembership
      have read := @membershipAfter?_word [] source after (by simp) membership stops
      simp [show membershipAfter? (source ++ after) = _ from read]

/-- Whatever token ends in front of a text that can be read ends there as well if the text goes on in
another way. -/
theorem Lexes.endsAlike {cs after other : List Char} {tokens : List Token} (lexes : Lexes cs tokens)
    (breaks : Breaks other) : EndsAlike (cs ++ after) (cs ++ other) := by
  cases cs with
  | nil => exact .inl breaks
  | cons c cs =>
    refine .inr ⟨rfl, fun point => ?_⟩
    obtain rfl : c = '.' := by simpa using point
    exact absurd lexes not_lexes_point

/-- The tokens of two texts come one after the other where no token goes on into the second text, except
that NOT takes a following IN along. -/
theorem Lexes.append {cs rest : List Char} {tokens others : List Token} (first : Lexes cs tokens)
    (breaks : Breaks rest) (second : Lexes rest others) (other : others.head? ≠ some .isIn) :
    Lexes (cs ++ rest) (tokens ++ others) := by
  induction first with
  | nil => exact second
  | blank blank lexes ih => exact .blank blank ih
  | @token source after token tokens fronts lexes ih =>
    have alike : EndsAlike (after ++ []) (after ++ rest) := lexes.endsAlike breaks
    rw [List.append_nil] at alike
    have lone : token = .not → membershipAfter? (after ++ rest) = none := by
      rintro rfl
      have none := fronts.lone
      have inner := lexes.isSome_membershipAfter?
      have whole := ih.isSome_membershipAfter?
      cases tokens with
      | nil => simpa [other] using whole
      | cons token tokens => simpa [none] using whole.trans inner.symm
    rw [List.append_assoc]
    exact .token (fronts.stable alike lone) ih

theorem Cuts.first {source after : List Char} {token : Token} {cuts : List Cut}
    (read : Cuts (source ++ after) cuts) (fronts : Fronts source after token) :
    ∃ others, cuts = ⟨source, token, after⟩ :: others ∧ Cuts after others := by
  obtain ⟨c, run, rfl, plain⟩ := fronts.exists_cons
  generalize text : c :: run ++ after = cs at read
  cases read with
  | nil => simp at text
  | blank blank behind =>
    obtain ⟨rfl, -⟩ := List.cons.inj text
    simp [blank] at plain
  | token found behind =>
    obtain ⟨rfl, rfl, rfl⟩ := fronts.unique found text
    exact ⟨_, rfl, behind⟩

theorem Cuts.lexes {cs : List Char} {cuts : List Cut} (read : Cuts cs cuts) :
    Lexes cs (cuts.map (·.token)) := by
  induction read with
  | nil => exact .nil
  | blank blank behind ih => exact .blank blank ih
  | token fronts behind ih => exact .token fronts ih

theorem token_cutsOf {cs : List Char} {tokens : List Token} (read : tokenize cs = .ok tokens) :
    (cutsOf cs).map (·.token) = tokens := by
  unfold tokenize at read
  cases ending : (tokensOf cs).ending with
  | error fault => simp [ending, Except.map] at read
  | ok stop => simpa [ending, Except.map, cutsOf, Lexeme.cut, Function.comp_def] using read

end PullQuery.Query
