import PullQuery.Proofs.Query.Occurrences

/-! When replacing a variable replaces whole tokens. The name is looked for among the characters of a
query, not among its tokens, so it is also found at the end of a longer word, between two literals,
and not at all where a name ends in a digit that no word ends in. The query is read with the value
in place of the variable, and otherwise as before, exactly when none of this happens. -/
namespace PullQuery.Query
open PullQuery.Text QuoteState Lexeme

namespace Cut

/-- The token is the name of the variable, or a literal that is the name in quotes. -/
def IsVariable (name : String) (cut : Cut) : Prop :=
  cut.token = .name name ∨ cut.source = '"' :: (name.toList ++ ['"']) ∨
    cut.source = '\'' :: (name.toList ++ ['\''])

instance (name : String) (cut : Cut) : Decidable (cut.IsVariable name) :=
  inferInstanceAs (Decidable (_ ∨ _ ∨ _))

def substituted (name value : String) (cut : Cut) : Token :=
  if cut.IsVariable name then .text value else cut.token

/-- The name is found at the token just as the token is the variable. For a literal this means that
it does not end where the name in the same quotes would begin, unless it ends in that itself. -/
def MatchesWhole (name : String) : Cut → Prop
  | ⟨[], _, _⟩ => True
  | ⟨c :: source, token, after⟩ =>
    if isQuote c = true then
      name.toList ++ [c] <+: after → c :: (name.toList ++ [c]) <:+ c :: source
    else ∀ place < (c :: source).length,
      StandsAt name.toList ((c :: source).drop place ++ after) ↔ place = 0 ∧ token = .name name

instance (name : String) (cut : Cut) : Decidable (cut.MatchesWhole name) :=
  match cut with
  | ⟨[], _, _⟩ => isTrue trivial
  | ⟨c :: _, _, _⟩ => inferInstanceAs (Decidable (if isQuote c = true then _ else _))

end Cut

section Replacing
variable {name : String} (isName : IsName name.toList) (value : String)

/-- From any place outside of the literals the text with the value is read as its tokens are meant
exactly when the name is found at all of them as they are the variable. -/
def ReadsWhole (name value : String) (cs : List Char) (cuts : List Cut) : Prop :=
  ∀ before, outside.after before.reverse = outside →
    (Lexes (replaceFrom (variableRule name.toList value.toList) before 0 cs)
        (cuts.map (Cut.substituted name value)) ↔
      ∀ cut ∈ cuts, cut.MatchesWhole name)

include isName

private theorem readsWhole_blank {c : Char} (blank : isBlank c = true) {rest : List Char}
    {cuts : List Cut} (behind : ReadsWhole name value rest cuts) :
    ReadsWhole name value (c :: rest) cuts := by
  intro before outer
  have plain := isQuote_of_isBlank blank
  have absent : ¬ StandsAt name.toList (c :: rest) := by
    rintro ⟨after, split, -⟩
    obtain ⟨d, run, same, start, -⟩ := isName.exists_cons
    rw [same] at split
    obtain ⟨rfl, -⟩ := List.cons.inj split
    have read := scan_nameStart start rest
    simp [scan_blank blank] at read
  rw [IsName.replaceFrom_pass value.toList plain absent, lexes_blank_iff blank]
  exact behind _ (by simp [after_append, outer, next_plain plain])

omit isName in
private theorem readsWhole_token {source after out : List Char} {token : Token} {cuts : List Cut}
    {before : List Char} (behind : ReadsWhole name value after cuts)
    (outer : outside.after (source.reverse ++ before).reverse = outside)
    (whole : (⟨source, token, after⟩ : Cut).MatchesWhole name)
    (fronts : Fronts out (replaceFrom (variableRule name.toList value.toList)
      (source.reverse ++ before) 0 after) ((⟨source, token, after⟩ : Cut).substituted name value))
    (replaced : replaceFrom (variableRule name.toList value.toList) before 0 (source ++ after) =
      out ++ replaceFrom (variableRule name.toList value.toList) (source.reverse ++ before) 0
        after) :
    Lexes (replaceFrom (variableRule name.toList value.toList) before 0 (source ++ after))
        ((⟨source, token, after⟩ :: cuts).map (Cut.substituted name value)) ↔
      ∀ cut ∈ (⟨source, token, after⟩ : Cut) :: cuts, cut.MatchesWhole name := by
  rw [replaced, List.map_cons, fronts.lexes_iff, List.forall_mem_cons, behind _ outer]
  simp [whole]

omit isName in
private theorem isVariable_literal {quote : Char} (quoted : isQuote quote = true)
    {body after : List Char} {s : String} :
    Cut.IsVariable name ⟨quote :: (body ++ [quote]), .text s, after⟩ ↔ body = name.toList := by
  have quotes : quote = '"' ∨ quote = '\'' := by simpa [isQuote] using quoted
  rcases quotes with rfl | rfl <;> simp [Cut.IsVariable]

omit isName in
private theorem matchesWhole_literal {quote : Char} (quoted : isQuote quote = true)
    {body after : List Char} {token : Token} (other : body ≠ name.toList) :
    Cut.MatchesWhole name ⟨quote :: (body ++ [quote]), token, after⟩ ↔
      (name.toList ++ [quote] <+: after → quote :: name.toList <:+ body) := by
  have suffix : quote :: (name.toList ++ [quote]) <:+ quote :: (body ++ [quote]) ↔
      quote :: name.toList <:+ body := by
    constructor
    · rintro ⟨front, split⟩
      have ends : (front ++ quote :: name.toList) ++ [quote] = (quote :: body) ++ [quote] := by
        simpa using split
      obtain same | suffix := List.suffix_cons_iff.mp ⟨front, List.append_cancel_right ends⟩
      · exact absurd (List.cons.inj same).2.symm other
      · exact suffix
    · rintro ⟨front, rfl⟩
      exact ⟨quote :: front, by simp⟩
  simp only [Cut.MatchesWhole, if_pos quoted, suffix]

private theorem readsWhole_literal {quote : Char} (quoted : isQuote quote = true)
    {body content after : List Char} (spelling : Spelling quote body content) {cuts : List Cut}
    (read : Cuts after cuts) (behind : ReadsWhole name value after cuts) :
    ReadsWhole name value (quote :: (body ++ [quote]) ++ after)
      (⟨quote :: (body ++ [quote]), .text (String.ofList content), after⟩ :: cuts) := by
  intro before outer
  obtain ⟨within, ends⟩ := spelling.within
  have closed : outside.after ((quote :: (body ++ [quote])).reverse ++ before).reverse =
      outside := by
    simp [after_append, outer, next_quote quoted, ends, next_closing quoted]
  by_cases same : body = name.toList
  · subst same
    refine readsWhole_token value behind closed ?_ ?_
      (isName.replaceFrom_quoted value.toList outer quoted)
    · simp [Cut.MatchesWhole, quoted]
    · rw [Cut.substituted, if_pos ((isVariable_literal quoted).mpr rfl)]
      simpa using fronts_asLiteral value.toList _
  · have kept (rest : List Char) : Fronts (quote :: (body ++ [quote])) rest
        ((⟨quote :: (body ++ [quote]), .text (String.ofList content), after⟩ : Cut).substituted
          name value) := by
      rw [Cut.substituted, if_neg (mt (isVariable_literal quoted).mp same)]
      exact .literal quoted spelling
    have whole := @matchesWhole_literal name quote quoted body after
      (.text (String.ofList content)) same
    obtain ⟨stays, straddles⟩ := @IsName.replaceFrom_literal _ isName value.toList quote quoted
      body content before after spelling outer same
    -- Where the closing quote is taken for the opening quote of the name, the name is left behind
    -- the literal although a value is meant there.
    by_cases ends : name.toList ++ [quote] <+: after → quote :: name.toList <:+ body
    · exact readsWhole_token value behind closed (whole.mpr ends) (kept _) (stays ends)
    · obtain ⟨front, absent⟩ := Classical.not_imp.mp ends
      obtain ⟨others, said⟩ := straddles front absent
      refine iff_of_false (fun lexes => ?_) fun all => ends (whole.mp (all _ (.head _)))
      obtain ⟨left, split⟩ := front
      rw [List.append_assoc] at split
      have stops : StopsRun isNamePart ([quote] ++ left) := by
        simpa [StopsRun] using isNamePart_of_isQuote quoted
      obtain ⟨later, rfl, -⟩ := (split ▸ read).first (isName.fronts stops)
      rw [said, List.map_cons, (kept _).lexes_iff] at lexes
      have text : Cut.substituted name value
          ⟨name.toList, .name (String.ofList name.toList), [quote] ++ left⟩ = .text value := by
        simp [Cut.substituted, Cut.IsVariable]
      obtain ⟨c, run, same, start, -⟩ := isName.exists_cons
      rw [List.map_cons, text, same] at lexes
      exact not_lexes_text start lexes.2

omit isName in
private theorem matchesWhole_plain {source after : List Char} {token : Token} (some : source ≠ [])
    (free : ∀ c ∈ source, isQuote c = false) :
    Cut.MatchesWhole name ⟨source, token, after⟩ ↔
      ∀ front behind, source = front ++ behind → behind ≠ [] →
        (StandsAt name.toList (behind ++ after) ↔ front = [] ∧ token = .name name) := by
  obtain ⟨c, run, rfl⟩ := List.exists_cons_of_ne_nil some
  have plain : ¬ isQuote c = true := by simp [free c (.head _)]
  rw [Cut.MatchesWhole, if_neg plain]
  constructor
  · intro whole front behind split some
    have positive := List.length_pos_iff.mpr some
    have place := whole front.length (by simp [split]; omega)
    rwa [split, List.drop_left, List.length_eq_zero_iff] at place
  · intro whole place bound
    have some : (c :: run).drop place ≠ [] := by simpa using bound
    rw [whole _ _ (List.take_append_drop place (c :: run)).symm some]
    simp

private theorem not_standsAt_within {after front behind : List Char}
    (stops : StopsRun isNamePart after)
    (split : name.toList = front ++ behind) (later : front ≠ []) (some : behind ≠ []) :
    ¬ StandsAt name.toList (behind ++ after) := by
  obtain ⟨c, run, same, -, all⟩ := isName.exists_cons
  have size := congrArg List.length split
  have positive := List.length_pos_iff.mpr later
  rw [List.length_append] at size
  rintro ⟨rest, stood, -⟩
  obtain ⟨more, whole, rfl⟩ | ⟨more, rfl, -⟩ := List.append_eq_append_iff.mp stood
  · cases more with
    | nil =>
      rw [whole, List.length_append, List.length_nil] at size
      omega
    | cons d more =>
      obtain ⟨e, others, rfl⟩ := List.exists_cons_of_ne_nil some
      obtain ⟨-, rfl⟩ := List.cons.inj (same.symm.trans whole)
      have ends : isNamePart d = false := stops d rfl
      simp [all d (by simp)] at ends
  · rw [List.length_append] at size
    omega

private theorem readsWhole_name {after : List Char} (stops : StopsRun isNamePart after)
    {cuts : List Cut} (behind : ReadsWhole name value after cuts) :
    ReadsWhole name value (name.toList ++ after) (⟨name.toList, .name name, after⟩ :: cuts) := by
  intro before outer
  have text : Cut.substituted name value ⟨name.toList, .name name, after⟩ = .text value := by
    simp [Cut.substituted, Cut.IsVariable]
  have whole : Cut.MatchesWhole name ⟨name.toList, .name name, after⟩ ↔
      StandsAt name.toList (name.toList ++ after) := by
    rw [matchesWhole_plain isName.ne_nil isName.quoteFree]
    constructor
    · intro found
      exact (found [] name.toList rfl isName.ne_nil).mpr ⟨rfl, rfl⟩
    · intro stands front behind split some
      by_cases first : front = []
      · subst first
        obtain rfl : name.toList = behind := split
        simp [stands]
      · simp [first, not_standsAt_within isName stops split first some]
  by_cases stands : StandsAt name.toList (name.toList ++ after)
  · have closed : outside.after (name.toList.reverse ++ before).reverse = outside := by
      simp [after_append, outer, after_quoteFree isName.quoteFree]
    refine readsWhole_token value behind closed (whole.mpr stands) ?_
      (isName.replaceFrom_stands value.toList outer stands)
    rw [text]
    simpa using fronts_asLiteral value.toList _
  -- The name stays, so a name is read where a text is meant.
  · refine iff_of_false (fun lexes => ?_) fun all => stands (whole.mp (all _ (.head _)))
    obtain ⟨c, run, same, start, -⟩ := isName.exists_cons
    have passed := @IsName.replaceFrom_pass name.toList value.toList before (run ++ after) c
      (isQuote_of_isNameStart start)
    rw [← List.cons_append, ← same] at passed
    rw [List.map_cons, text, passed stands] at lexes
    exact not_lexes_text start lexes

private theorem endsAlike_replaced {before cs : List Char} {tokens : List Token}
    (lexes : Lexes cs tokens) :
    EndsAlike cs (replaceFrom (variableRule name.toList value.toList) before 0 cs) := by
  have point : cs.head? ≠ some '.' := by
    rintro first
    obtain ⟨rest, rfl⟩ := List.head?_eq_some_iff.mp first
    exact not_lexes_point lexes
  cases cs with
  | nil => exact .inr ⟨rfl, fun _ => rfl⟩
  | cons c rest =>
    obtain passed | ⟨source, left, split, occurrence, choice⟩ :=
      variableRule_cases isName.ne_nil isName.quoteFree before (c :: rest)
    · rw [replaceFrom_keep (passed _)]
      exact .inr ⟨rfl, fun first => absurd first point⟩
    · have some := occurrence.ne_nil isName.ne_nil
      rw [split] at choice point ⊢
      obtain ⟨-, -, placed⟩ | kept := choice
      · rw [replaceFrom_piece some (placed _)]
        refine .inl fun d first => ?_
        obtain rfl : '"' = d := by simpa [asLiteral] using first
        exact ⟨isNamePart_of_isQuote rfl, by decide⟩
      · rw [replaceFrom_piece some (kept _)]
        obtain ⟨d, run, rfl⟩ := List.exists_cons_of_ne_nil some
        exact .inr ⟨rfl, fun first => absurd first point⟩

omit isName in
/-- A word NOT that did not take a word IN along takes one only if the name was found in a word that
begins with it. -/
theorem not_matchesWhole_of_membership {source after : List Char} {cuts : List Cut}
    {before : List Char} {width : Nat}
    (fronts : Fronts source after .not) (read : Cuts after cuts)
    (behind : ReadsWhole name value after cuts)
    (outer : outside.after before.reverse = outside)
    (found : membershipAfter? (replaceFrom (variableRule name.toList value.toList) before 0 after) =
      some width) :
    ¬ ∀ cut ∈ cuts, cut.MatchesWhole name := by
  intro whole
  have lexes := (behind before outer).mpr whole
  have first := lexes.isSome_membershipAfter?.mp (by simp [found])
  cases cuts with
  | nil => simp at first
  | cons cut cuts =>
    have token : cut.token = .isIn := by
      by_contra other
      by_cases variable_ : cut.IsVariable name <;> simp [Cut.substituted, variable_, other] at first
    have lone := fronts.lone
    have taken := read.lexes.isSome_membershipAfter?.mpr (by simp [token])
    simp [lone] at taken

private theorem readsWhole_other {source after : List Char} {token : Token} {cuts : List Cut}
    (fronts : Fronts source after token) (noText : ∀ s, token ≠ .text s)
    (free : ∀ c ∈ source, isQuote c = false) (other : token ≠ .name name)
    (read : Cuts after cuts) (behind : ReadsWhole name value after cuts) :
    ReadsWhole name value (source ++ after) (⟨source, token, after⟩ :: cuts) := by
  intro before outer
  have some : source ≠ [] := by
    obtain ⟨c, run, rfl, -⟩ := fronts.exists_cons
    simp
  have kept : Cut.substituted name value ⟨source, token, after⟩ = token := by
    have noVariable : ¬ Cut.IsVariable name ⟨source, token, after⟩ := by
      rintro (is | rfl | rfl)
      · exact other is
      · simp [isQuote] at free
      · simp [isQuote] at free
    rw [Cut.substituted, if_neg noVariable]
  have whole := @matchesWhole_plain name source after token some free
  have closed : outside.after (source.reverse ++ before).reverse = outside := by
    simp [after_append, outer, after_quoteFree free]
  obtain ⟨absent, stays⟩ | ⟨front, found, others, rfl, something, stands, replaced⟩ :=
    isName.replaceFrom_plain value.toList outer free
  -- What is read of a token whose characters stay depends on the text behind it only for NOT.
  · have alike := @endsAlike_replaced name isName value (source.reverse ++ before) _ _ read.lexes
    by_cases lone : token = .not → membershipAfter? (replaceFrom
        (variableRule name.toList value.toList) (source.reverse ++ before) 0 after) = none
    · refine readsWhole_token value behind closed ?_ ?_ stays
      · refine whole.mpr fun front found split something => iff_of_false ?_ fun is => other is.2
        exact absent front found split something
      · rw [kept]
        exact fronts.stable alike lone
    · obtain ⟨rfl, taken⟩ := Classical.not_imp.mp lone
      obtain ⟨width, taken⟩ := Option.ne_none_iff_exists'.mp taken
      have misread := not_matchesWhole_of_membership value fronts read behind closed taken
      refine iff_of_false (fun lexes => ?_) fun all => ?_
      · rw [stays, List.map_cons, kept] at lexes
        exact not_lexes_not fronts taken lexes
      · exact misread fun cut member => all cut (.tail _ member)
  -- A literal within the token leaves only a part of it in front, which is another token.
  · refine iff_of_false (fun lexes => ?_) fun all => ?_
    · obtain ⟨rest, split, -⟩ := stands
      obtain ⟨d, run, same, start, -⟩ := isName.exists_cons
      obtain ⟨e, left, rfl⟩ := List.exists_cons_of_ne_nil something
      obtain ⟨rfl, -⟩ : e = d ∧ _ := List.cons.inj (same ▸ split)
      rw [replaced, List.map_cons, kept] at lexes
      exact not_lexes_broken fronts noText something ⟨e, by simp, start⟩ lexes
    · exact other ((whole.mp (all _ (.head _)) front found rfl something).mp stands).2

private theorem readsWhole {cs : List Char} {cuts : List Cut} (read : Cuts cs cuts) :
    ReadsWhole name value cs cuts := by
  induction read with
  | nil => exact fun _ _ => iff_of_true .nil (by simp)
  | blank blank read ih => exact readsWhole_blank isName value blank ih
  | @token source after token cuts fronts read ih =>
    obtain ⟨quote, body, content, quoted, rfl, spelling, rfl⟩ | ⟨noText, free⟩ :=
      fronts.literal_or_plain
    · exact readsWhole_literal isName value quoted spelling read ih
    · by_cases same : token = .name name
      · subst same
        obtain ⟨rfl, -, stops⟩ := fronts.of_name
        exact readsWhole_name isName value stops ih
      · exact readsWhole_other isName value fronts noText free same read ih

end Replacing

/-- A query with a value for a variable is read as the tokens of the query with the value in place of
the variable exactly when the name is found at all of them as they are the variable. -/
theorem tokenize_substitute_iff {name : String} (single : tokenize name.toList = .ok [.name name])
    (value : String) {query : String} {tokens : List Token}
    (read : tokenize query.toList = .ok tokens) :
    (cutsOf query.toList).map (·.token) = tokens ∧
      (tokenize (Variables.substitute [(name, value)] query.toList) =
          .ok ((cutsOf query.toList).map (Cut.substituted name value)) ↔
        ∀ cut ∈ cutsOf query.toList, cut.MatchesWhole name) := by
  have isName := isName_of_single single
  have named : name ≠ "" := by
    rintro rfl
    exact isName.ne_nil rfl
  refine ⟨token_cutsOf read, ?_⟩
  rw [tokenize_iff, substitute_single named]
  exact readsWhole isName value (cuts_cutsOf read) [] rfl

theorem tokenize_substitute_iff_bare_and_quoted :
    (tokenize "@me".toList = .ok [.name "@me"] ∧
        tokenize "x = @me OR '@me'".toList =
          .ok [.name "x", .equal, .name "@me", .or, .text "@me"]) ∧
      (cutsOf "x = @me OR '@me'".toList).map (·.token) =
        [.name "x", .equal, .name "@me", .or, .text "@me"] ∧
      (tokenize (Variables.substitute [("@me", "octo\"cat")] "x = @me OR '@me'".toList) =
          .ok ((cutsOf "x = @me OR '@me'".toList).map (Cut.substituted "@me" "octo\"cat")) ↔
        ∀ cut ∈ cutsOf "x = @me OR '@me'".toList, cut.MatchesWhole "@me") := by
  have single : tokenize "@me".toList = .ok [.name "@me"] := by decide +kernel
  have read : tokenize "x = @me OR '@me'".toList =
      .ok [.name "x", .equal, .name "@me", .or, .text "@me"] := by decide +kernel
  exact ⟨⟨single, read⟩, tokenize_substitute_iff single _ read⟩

example : ∀ cut ∈ cutsOf "x = @me OR '@me'".toList, cut.MatchesWhole "@me" := by
  decide +kernel

-- Between two literals the name is taken for a quoted one, and a name that ends in a digit other
-- than a decimal one is not found at all.
example : ¬ ∀ cut ∈ cutsOf "\"a\"b\"c\"".toList, cut.MatchesWhole "b" := by decide +kernel

example : ¬ ∀ cut ∈ cutsOf "x²".toList, cut.MatchesWhole "x²" := by decide +kernel

/-- A variable is also replaced at the end of a longer name, so the field is not read here. -/
theorem not_tokenize_substitute_of_title :
    tokenize "e".toList = .ok [.name "e"] ∧
      tokenize "title = 'x'".toList = .ok [.name "title", .equal, .text "x"] ∧
      tokenize (Variables.substitute [("e", "v")] "title = 'x'".toList) ≠
        .ok ((cutsOf "title = 'x'".toList).map (Cut.substituted "e" "v")) := by
  decide +kernel

end PullQuery.Query
