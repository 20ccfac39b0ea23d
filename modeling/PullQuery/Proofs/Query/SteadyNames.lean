import PullQuery.Proofs.Query.NameRuns

/-! The names of a text when its durations become seconds. A name keeps its characters unless digits
are written for a duration directly behind a dollar or an at sign in it, and the text can still be
read unless seconds that are no part of a name are written in front of a character of names that is
in no word. -/
namespace PullQuery.Query
open PullQuery.Number PullQuery.Text QuoteState Lexeme

section Durations
variable {sign number word more after : List Char} {token : Token}

theorem DurationFront.rereads {sound : Prop} {names : List Cut} {other out : List Char}
    (front : DurationFront sign number token word more after)
    (parts : ∀ d ∈ other, isNamePart d = true) (stops : StopsRun isNamePart out)
    (shape : other = more ∨ ∃ d ∈ other, d.isDigit = true) (behind : Rereads sound names out) :
    Rereads sound names (sign ++ (number ++ word) ++ (other ++ out)) := by
  obtain ⟨c, run, rfl⟩ := List.exists_cons_of_ne_nil front.some
  have bare : keyword? (c :: (run ++ other)) = none := by
    rcases shape with rfl | ⟨d, member, digit⟩
    · exact front.bare
    · exact keyword?_eq_none (by simp [member]) (isAlphabetic_of_isDigit digit)
  have named : Fronts (c :: (run ++ other)) out (.name (String.ofList (c :: (run ++ other)))) := by
    refine .name (isNameStart_of_isAlphabetic (front.letters c (.head _))) (fun d member => ?_) stops
      bare
    rcases List.mem_append.mp member with letter | part
    · exact isNamePart_of_isAlphabetic (front.letters d (.tail _ letter))
    · exact parts d part
  have numeral : Fronts number (c :: run ++ (other ++ out)) token := by
    refine front.fronts.stable (.inr ⟨by simp, fun point => ?_⟩) fun same => ?_
    · obtain rfl : '.' = c := by simpa using point.symm
      exact absurd (front.letters '.' (.head _)) (by decide)
    · have isNumber := front.isNumber
      simp [same, Token.isNumber] at isNumber
  have reread : Rereads sound names (number ++ (c :: run ++ (other ++ out))) :=
    .token numeral (by simpa using Rereads.token named behind)
  rcases front.signed with rfl | rfl
  · simpa using reread
  · simpa using Rereads.token (fronts_minus _) reread

private theorem DurationFront.exists_last (front : DurationFront sign number token word more after)
    (before : List Char) : ∃ e init,
      (sign ++ (number ++ word)).reverse ++ before = e :: init ∧ isAlphabetic e = true := by
  obtain ⟨letters, e, rfl⟩ := (List.eq_nil_or_concat' word).resolve_left front.some
  exact ⟨e, (sign ++ (number ++ letters)).reverse ++ before, by simp, front.letters e (by simp)⟩

private theorem DurationFront.endsDuration {tokens : List Token}
    (front : DurationFront sign number token word more after) (lexes : Lexes after tokens) :
    EndsDuration (more ++ after) := by
  cases more with
  | nil => exact lexes.endsDuration front.nameEnds
  | cons d more =>
    intro c first
    obtain rfl : d = c := by simpa using first
    have plain : isWordChar d = false := front.wordEnds d rfl
    refine ⟨front.wordEnds.isDecimal d rfl, plain, ?_⟩
    rintro rfl
    exact absurd (front.parts '.' (.head _)) (by decide)

theorem not_lexes_namePart {d : Char} {rest : List Char} {tokens : List Token}
    (part : isNamePart d = true) (plain : isWordChar d = false) (other : d ≠ '$') :
    ¬ Lexes (d :: rest) tokens := by
  intro lexes
  simp only [isWordChar, Bool.or_eq_false_iff] at plain
  rcases lexes.front_cases with blank | symbol | quote | digit | start
  · simp [isNamePart_of_isBlank blank] at part
  · have apart : symbolStarts.all (fun c => !isNamePart c) = true := by decide
    simpa [part] using List.all_eq_true.mp apart d symbol
  · simp [isNamePart_of_isQuote quote] at part
  · simp [isDecimal_of_isDigit digit] at plain
  · simp only [isNameStart, plain, other, Bool.or_eq_true, beq_iff_eq, Bool.false_eq_true, false_or,
      or_false] at start
    rcases start with rfl | rfl
    · exact absurd plain (by decide)
    · exact absurd part (by decide)

/-- Behind the letters of a duration the text is read again, unless their name goes on there with what
no token begins with. -/
theorem DurationFront.rereads_behind {cuts : List Cut} {before : List Char} {e : Char}
    (front : DurationFront sign number token word more after) (read : Cuts after cuts)
    (texts : RereadsText (more ++ after)) (letter : isAlphabetic e = true)
    (outer : outside.after (e :: before).reverse = outside) :
    Rereads (goesOn (more ++ after) = false ∧ IsSound (e :: before) (more ++ after))
      (looseNames none cuts) (replaceFrom durationRule (e :: before) 0 (more ++ after)) := by
  have sign : isNameSign e = false := isNameSign_eq_false (by decide) letter
  have again {cuts : List Cut} (read : Cuts (more ++ after) cuts) := texts (e :: before) cuts read
    outer (by simp [sign])
  -- The unit ends a word, so of what its name may go on with only a dollar begins a token.
  cases more with
  | nil =>
    have ends : goesOn ([] ++ after) = false := by
      rw [goesOn, Option.any_eq_false]
      intro d first
      have last : isNamePart d = false := front.nameEnds d first
      simp [last]
    exact (again read).iff (and_iff_right ends)
  | cons d more =>
    have part := front.parts d (.head _)
    by_cases dollar : d = '$'
    · subst dollar
      have bare : keyword? ('$' :: more) = none := keyword?_eq_none (.head _) (by decide)
      have named : Fronts ('$' :: more) after (.name (String.ofList ('$' :: more))) :=
        .name rfl (fun d member => front.parts d (.tail _ member)) front.nameEnds bare
      have rereads := again (.token named read)
      rw [looseNames] at rereads
      exact rereads.tail.iff (by simp [goesOn])
    · have head := head?_of_stays (conversionAt?_of_not_mayFollow
        (mayFollow_of_isAlphabetic letter before) (d :: more ++ after))
      obtain ⟨out, text⟩ := List.head?_eq_some_iff.mp (head.trans rfl)
      rw [text]
      refine (Rereads.broken _ fun tokens => ?_).iff (by simp [goesOn, part, dollar])
      exact not_lexes_namePart part (front.wordEnds d rfl) dollar

theorem rereads_duration {before cs : List Char} {cuts : List Cut} {d : Duration} {width : Nat}
    (scanned : Duration.scan? cs = some (d, width)) (read : Cuts cs cuts)
    (outer : outside.after before.reverse = outside)
    (digitless : before.head?.any isNameSign = true → writesDigits ⟨before, cs⟩ = false)
    (texts : ∀ other, other.length < cs.length → RereadsText other)
    (runs : ∀ other, other.length < cs.length → RereadsRun other) :
    Rereads (IsSound before cs) (looseNames none cuts) (replaceFrom durationRule before 0 cs) := by
  obtain ⟨sign, number, token, word, more, after, others, rfl, rfl, front, rfl, behind⟩ :=
    exists_durationFront read scanned
  have closed := closed_behind scanned outer
  obtain ⟨e, init, last, letter⟩ := front.exists_last before
  have nonempty : sign ++ (number ++ word) ≠ [] := by simp [front.some]
  have shorter : (more ++ after).length < (sign ++ (number ++ word) ++ (more ++ after)).length := by
    have size := List.length_pos_of_ne_nil nonempty
    rw [@List.length_append _ (sign ++ (number ++ word))]
    omega
  rw [last] at closed
  rw [looseNames_durationCuts front]
  cases found : conversionAt? ⟨before, sign ++ (number ++ word) ++ (more ++ after)⟩ with
  | none =>
    have passes := passes_duration nonempty scanned found
    obtain ⟨other, out, text, parts, stops, shape, -, rereads⟩ := runs _ shorter init e more after
      others rfl front.parts front.nameEnds behind (.inl (isNamePart_of_isAlphabetic letter)) closed
    have sound := passes.sound
    rw [last] at sound
    rw [passes.text, last, text]
    exact (front.rereads parts stops shape rereads).iff sound
  | some conversion =>
    obtain ⟨same, length, -⟩ := conversionAt?_eq_some.mp found
    obtain ⟨rfl, width⟩ := Prod.mk.inj (Option.some.inj (scanned.symm.trans same))
    obtain ⟨text, sound⟩ := converts nonempty found width.symm
    have ends : EndsDuration (replaceFrom durationRule (e :: init) 0 (more ++ after)) := by
      rw [EndsDuration, head?_of_stays (conversionAt?_of_not_mayFollow
        (mayFollow_of_isAlphabetic letter init) (more ++ after))]
      exact front.endsDuration behind.lexes
    rw [breaksName_eq_goesOn found digitless, ← width, List.drop_left, last] at sound
    rw [text, last]
    exact (Rereads.seconds length ends.stopsDigit ends.startsFraction
      (front.rereads_behind behind (texts _ shorter) letter closed)).iff sound

end Durations
section Texts
variable {before : List Char} {cuts : List Cut}

private theorem isSound_nil (before : List Char) :
    IsSound before [] := by simp [IsSound, placesFrom]

theorem looseNames_behind (behind : Option (List Char)) (cuts : List Cut) :
    looseNames none cuts = looseNames behind cuts ∨
      ∃ cut, looseNames none cuts = cut :: looseNames behind cuts := by
  cases cuts with
  | nil => exact .inl rfl
  | cons cut cuts =>
    cases same : cut.token with
    | name =>
      by_cases glued : behind = some (cut.source ++ cut.after)
      · exact .inr ⟨cut, by simp [looseNames, same, glued]⟩
      · exact .inl (by simp [looseNames, same, glued])
    | _ => exact .inl (by simp [looseNames, same])

private theorem rereads_name {c : Char} {run after : List Char} (isName : IsName (c :: run))
    (none : Duration.scan? (c :: run ++ after) = none) (behind : RenamesRun before c run after cuts) :
    Rereads (IsSound before (c :: run ++ after))
      (⟨c :: run, .name (String.ofList (c :: run)), after⟩ :: looseNames .none cuts)
      (replaceFrom durationRule before 0 (c :: run ++ after)) := by
  obtain ⟨other, out, text, parts, ends, shape, same, rereads⟩ := behind
  have passes : Passes before [c] (run ++ after) := passes_char none before
  have reread : IsName (c :: other) := by
    obtain ⟨d, rest, split, start, -⟩ := isName.exists_cons
    obtain ⟨rfl, -⟩ := List.cons.inj split
    refine ⟨⟨c, other, rfl, start, parts⟩, ?_⟩
    rcases shape with rfl | ⟨d, member, digit⟩
    · exact isName.keyword
    · exact keyword?_eq_none (.tail _ member) (isAlphabetic_of_isDigit digit)
  have renames : Renames ⟨c :: run, .name (String.ofList (c :: run)), after⟩
      (.name (String.ofList (c :: other))) := by
    refine ⟨_, rfl, ?_⟩
    rw [Cut.takesDigits, ← same, Token.name.injEq, String.ofList_inj, List.cons.injEq]
    exact and_iff_right rfl
  have whole : replaceFrom durationRule before 0 (c :: run ++ after) = c :: other ++ out :=
    passes.text.trans (congrArg (c :: ·) text)
  rw [whole]
  exact (Rereads.name (reread.fronts ends) renames rereads).iff passes.sound

private theorem rereads_token {source after : List Char} {token : Token}
    (fronts : Fronts source after token) (other : ∀ s, token ≠ .name s) (read : Cuts after cuts)
    (none : Duration.scan? (source ++ after) = none)
    (outer : outside.after before.reverse = outside) (text : RereadsText after) :
    Rereads (IsSound before (source ++ after)) (looseNames .none (⟨source, token, after⟩ :: cuts))
      (replaceFrom durationRule before 0 (source ++ after)) := by
  have passes := fronts.passes read.lexes other none outer
  have again := fronts.rewritten read.lexes other before
  have closed : outside.after (source.reverse ++ before).reverse = outside := by
    rw [after_reverse_append, outer, (fronts.spansFrom 0 0).1]
  have digitless : (source.reverse ++ before).head?.any isNameSign = true →
      writesDigits ⟨source.reverse ++ before, after⟩ = false := by
    obtain ⟨init, c, rfl, sign, -⟩ := fronts.exists_last other
    simp [sign]
  have behind := text (source.reverse ++ before) cuts read closed digitless
  have names : Rereads (IsSound (source.reverse ++ before) after)
      (looseNames .none (⟨source, token, after⟩ :: cuts))
      (replaceFrom durationRule (source.reverse ++ before) 0 after) := by
    cases token with
    | name s => exact absurd rfl (other s)
    | integer | float =>
      rcases looseNames_behind (some after) cuts with same | ⟨cut, same⟩
      · rw [same] at behind
        exact behind
      · rw [same] at behind
        exact behind.tail
    | _ => exact behind
  rw [passes.text]
  exact (Rereads.token again names).iff passes.sound

theorem rereadsText {cs : List Char} (texts : ∀ other, other.length < cs.length → RereadsText other)
    (runs : ∀ other, other.length < cs.length → RereadsRun other) : RereadsText cs := by
  intro before cuts read outer digitless
  cases scanned : Duration.scan? cs with
  | some front => exact rereads_duration scanned read outer digitless texts runs
  | none =>
    cases read with
    | nil => exact Rereads.nil.iff (by simp [isSound_nil])
    | @blank c rest cuts blank behind =>
      have passes : Passes before [c] rest := passes_char scanned before
      have sign : isNameSign c = false := isNameSign_eq_false (by decide) blank
      have rereads := texts rest (by simp) (c :: before) cuts behind
        (by rw [after_reverse_cons, outer, next_plain (isQuote_of_isBlank blank)]) (by simp [sign])
      exact passes.text ▸ (Rereads.blank blank rereads).iff passes.sound
    | @token source after token cuts fronts behind =>
      by_cases name : ∃ s, token = .name s
      · obtain ⟨s, rfl⟩ := name
        obtain ⟨same, isName, stops⟩ := fronts.of_name
        obtain ⟨c, run, rfl, start, parts⟩ := isName.exists_cons
        have renames := runs (run ++ after) (by simp) before c run after cuts rfl parts stops behind
          (isNamePart_of_isNameStart start)
          (by rw [after_reverse_cons, outer, next_plain (isQuote_of_isNameStart start)])
        have rereads := rereads_name isName scanned renames
        rw [same, String.ofList_toList] at rereads
        rw [same]
        simpa [looseNames] using rereads
      · have other : ∀ s, token ≠ .name s := fun s same => name ⟨s, same⟩
        obtain ⟨c, run, rfl, -⟩ := fronts.exists_cons
        have shorter : after.length < (c :: run ++ after).length := by
          rw [List.length_append, List.length_cons]
          omega
        exact rereads_token fronts other behind scanned outer (texts after shorter)

/-- Every text is read again, from its front and from within a name. -/
theorem rereads (cs : List Char) : RereadsText cs ∧ RereadsRun cs := by
  induction size : cs.length using Nat.strongRecOn generalizing cs with
  | ind size ih =>
    subst size
    have shorter : ∀ other : List Char, other.length < cs.length →
        RereadsText other ∧ RereadsRun other := fun other short => ih _ short other rfl
    -- At the end of a name the text behind it is all that is left, so texts come first.
    have texts : ∀ other : List Char, other.length ≤ cs.length → RereadsText other := by
      intro other short
      exact rereadsText (fun part less => (shorter part (by omega)).1)
        fun part less => (shorter part (by omega)).2
    exact ⟨texts cs (Nat.le_refl _), rereadsRun texts fun other less => (shorter other less).2⟩

private theorem isName_of_mem_looseNames {cs : List Char} (read : Cuts cs cuts)
    {behind : Option (List Char)} {cut : Cut} (member : cut ∈ looseNames behind cuts) :
    IsName cut.source := by
  induction read generalizing behind with
  | nil => simp [looseNames] at member
  | blank blank read ih => exact ih member
  | @token source after token cuts fronts read ih =>
    cases token with
    | name s =>
      simp only [looseNames] at member
      split at member
      · exact ih member
      · rcases List.mem_cons.mp member with rfl | later
        · exact fronts.of_name.2.1
        · exact ih later
    | _ => exact ih member

/-- A name without a dollar and an at sign takes no digits. -/
theorem IsName.takesDigits {source : List Char} (isName : IsName source)
    (signless : ∀ c ∈ source, isNameSign c = false) (after : List Char) :
    takesDigits after source = false := by
  have follows : ∀ c ∈ source, mayFollow [c] = false := by
    intro c member
    obtain ⟨d, run, rfl, start, parts⟩ := isName.exists_cons
    have name : isNamePart c = true ∨ c = '@' := by
      rcases List.mem_cons.mp member with rfl | later
      · exact isNamePart_of_isNameStart start
      · exact .inl (parts c later)
    cases known : mayFollow [c] with
    | false => rfl
    | true => simpa [isNameSign_of_mayFollow name known] using signless c member
  simpa [PullQuery.Query.takesDigits] using takesDigits_append follows after []

end Texts

/-- When the durations of a text become seconds, the text can be read as before exactly if no name is
broken, and then each name that does not stand directly behind a number has its own name in the new
text, in the same order, which is the same exactly if no digits are written in it. They are written
only behind a dollar or an at sign. -/
theorem names_durationsInSeconds {cs : List Char} {tokens : List Token}
    (read : tokenize cs = .ok tokens) :
    ((∃ others, tokenize (durationsInSeconds cs) = .ok others) ↔
      ∀ place ∈ placesFrom durationRule [] 0 cs, breaksName place = false) ∧
    (∀ others, tokenize (durationsInSeconds cs) = .ok others →
      Follows (looseNames none (cutsOf cs)) others) ∧
    ∀ cut ∈ looseNames none (cutsOf cs), (∀ c ∈ cut.source, isNameSign c = false) →
      cut.takesDigits = false := by
  have cuts := cuts_cutsOf read
  have rereads := (rereads cs).1 [] (cutsOf cs) cuts rfl (by simp)
  refine ⟨?_, fun others lexes => rereads.follows others (tokenize_iff.mp lexes), ?_⟩
  · simp only [tokenize_iff]
    exact rereads.reads.symm
  · intro cut member signless
    exact (isName_of_mem_looseNames cuts member).takesDigits signless cut.after

theorem names_durationsInSeconds_dollar_name :
    tokenize "$7d = v2d && x > 7d".toList =
        .ok [.name "$7d", .equal, .name "v2d", .and, .name "x", .greater, .integer 7, .name "d"] ∧
      (looseNames none (cutsOf "$7d = v2d && x > 7d".toList)).map (fun cut => (cut.token, cut.takesDigits)) =
        [(.name "$7d", true), (.name "v2d", false), (.name "x", false)] ∧
      tokenize (durationsInSeconds "$7d = v2d && x > 7d".toList) =
        .ok [.name "$604800", .equal, .name "v2d", .and, .name "x", .greater, .integer 604800] ∧
      Follows (looseNames none (cutsOf "$7d = v2d && x > 7d".toList))
        [.name "$604800", .equal, .name "v2d", .and, .name "x", .greater, .integer 604800] := by
  have read : tokenize "$7d = v2d && x > 7d".toList =
      .ok [.name "$7d", .equal, .name "v2d", .and, .name "x", .greater, .integer 7, .name "d"] := by
    decide +kernel
  have written : tokenize (durationsInSeconds "$7d = v2d && x > 7d".toList) =
      .ok [.name "$604800", .equal, .name "v2d", .and, .name "x", .greater, .integer 604800] := by
    decide +kernel
  exact ⟨read, by decide +kernel, written, (names_durationsInSeconds read).2.1 _ written⟩

/-- The name of a dollar and a duration does not stay. -/
theorem renames_dollar_duration :
    tokenize "title = $7d".toList = .ok [.name "title", .equal, .name "$7d"] ∧
      (looseNames none (cutsOf "title = $7d".toList)).map Cut.token = [.name "title", .name "$7d"] ∧
      tokenize (durationsInSeconds "title = $7d".toList) =
        .ok [.name "title", .equal, .name "$604800"] ∧
      ¬ List.Sublist [Token.name "title", .name "$7d"] [.name "title", .equal, .name "$604800"] := by
  refine ⟨by decide +kernel, by decide +kernel, by decide +kernel, fun part => ?_⟩
  have member : Token.name "$7d" ∈ [Token.name "title", .equal, .name "$604800"] :=
    part.subset (by simp)
  simp at member

end PullQuery.Query
