import PullQuery.Proofs.Data.Dictionary
import PullQuery.Proofs.Query.Placeholders
import PullQuery.Proofs.Query.Substitution

/-! Which tables of variables are substituted simultaneously. The variables are replaced one after the
other in a text that already holds literals, and a literal is replaced again exactly when it spells
the name of a later variable; so all literals in the result are those of the variables' own values
exactly when no value spells a later name with another value. -/
namespace PullQuery.Query
open PullQuery.Text PullQuery.Data QuoteState Lexeme

/-- The literal of a variable is placed where it was written in kept characters, and all that was
placed before stays. -/
inductive Places (name value : String) : Trace String → Trace String → Prop
  | nil : Places name value [] []
  | stays {trace other : Trace String} (segment : Segment String)
      (rest : Places name value trace other) : Places name value (segment :: trace) (segment :: other)
  | place {source : List Char} {trace other : Trace String}
      (occurrence : IsOccurrence name.toList source) (rest : Places name value trace other) :
      Places name value (Trace.kept source ++ trace) (.placed source value :: other)

/-- Each variable in turn places its literals, and that is all that its substitution does. -/
inductive PlacesInTurn : List (String × String) → Trace String → Trace String → Prop
  | nil (trace : Trace String) : PlacesInTurn [] trace trace
  | cons {binding : String × String} {rest : List (String × String)}
      {trace next final : Trace String} (places : Places binding.1 binding.2 trace next)
      (substituted : substituteOne binding.1 binding.2 (trace.text id) = next.text id)
      (others : PlacesInTurn rest next final) : PlacesInTurn (binding :: rest) trace final

/-- The substituted text is the text with the literal of its own value for each written variable. -/
def Variables.IsSimultaneous (bindings : Variables) (cs : List Char) : Prop :=
  ∃ final : Trace String, final.source = cs ∧ final.text id = bindings.substitute cs ∧
    PlacesInTurn bindings.byLength (.kept cs) final

/-- No value, written as a literal, spells the name of a later variable with another value. -/
def KeepsApart (bindings : List (String × String)) : Prop :=
  bindings.Pairwise fun first later =>
    escapeQuoted first.2.toList = later.1.toList → first.2 = later.2

private theorem Places.source {name value : String} {trace other : Trace String}
    (places : Places name value trace other) : other.source = trace.source := by
  induction places with
  | nil => rfl
  | stays segment rest ih => rw [Trace.source_cons, Trace.source_cons, ih]
  | place occurrence rest ih =>
    rw [Trace.source_append, Trace.source_kept, Trace.source_cons, ih]
    rfl

private theorem PlacesInTurn.source {bindings : List (String × String)} {trace final : Trace String}
    (places : PlacesInTurn bindings trace final) : final.source = trace.source := by
  induction places with
  | nil => rfl
  | cons places substituted others ih => rw [ih, places.source]

private theorem PlacesInTurn.text {bindings : List (String × String)} {trace final : Trace String}
    (places : PlacesInTurn bindings trace final) :
    final.text id = bindings.foldl (fun cs binding => substituteOne binding.1 binding.2 cs)
      (trace.text id) := by
  induction places with
  | nil => rfl
  | cons places substituted others ih => rw [ih, List.foldl_cons, substituted]

private theorem Places.own {name value : String} {trace other : Trace String}
    (places : Places name value trace other) {source : List Char} {new : String}
    (member : .placed source new ∈ other) :
    .placed source new ∈ trace ∨ IsOccurrence name.toList source ∧ new = value := by
  induction places with
  | nil => exact .inl member
  | stays segment rest ih =>
    rcases List.mem_cons.mp member with rfl | later
    · exact .inl (.head _)
    · exact (ih later).imp_left (.tail _)
  | place occurrence rest ih =>
    rcases List.mem_cons.mp member with first | later
    · obtain ⟨rfl, rfl⟩ := Segment.placed.inj first
      exact .inr ⟨occurrence, rfl⟩
    · exact (ih later).imp_left (List.mem_append_right _)

theorem PlacesInTurn.own {bindings : List (String × String)} {trace final : Trace String}
    (places : PlacesInTurn bindings trace final) {source : List Char} {new : String}
    (member : .placed source new ∈ final) :
    .placed source new ∈ trace ∨
      ∃ binding ∈ bindings, IsOccurrence binding.1.toList source ∧ new = binding.2 := by
  induction places with
  | nil => exact .inl member
  | @cons binding rest trace next final places substituted others ih =>
    rcases ih member with before | ⟨other, later, written⟩
    · rcases places.own before with earlier | written
      · exact .inl earlier
      · exact .inr ⟨binding, .head _, written⟩
    · exact .inr ⟨other, .tail _ later, written⟩

theorem isSimultaneous_iff {bindings : Variables} {cs : List Char} :
    bindings.IsSimultaneous cs ↔ ∃ final, PlacesInTurn bindings.byLength (.kept cs) final := by
  constructor
  · rintro ⟨final, -, -, places⟩
    exact ⟨final, places⟩
  · rintro ⟨final, places⟩
    refine ⟨final, ?_, ?_, places⟩
    · rw [places.source, Trace.source_kept]
    · rw [places.text, Trace.text_kept]
      rfl

section Literal
variable {name : List Char} (named : name ≠ []) (free : ∀ c ∈ name, isQuote c = false)

include named free in
/-- A replaced pick at the front of a literal is that literal. -/
theorem IsOccurrence.eq_literal {quote : Char} {body rest source left : List Char}
    (occurrence : IsOccurrence name source) (quoted : isQuote quote = true)
    (within : (inside quote).Within (body ++ [quote]))
    (split : source ++ left = quote :: (body ++ quote :: rest))
    (closed : outside.after source = outside ∨ left = []) : body = name ∧ left = rest := by
  cases occurrence with
  | bare =>
    obtain ⟨c, name, rfl⟩ := List.exists_cons_of_ne_nil named
    obtain ⟨rfl, -⟩ := List.cons.inj split
    have plain := free c (.head _)
    simp [quoted] at plain
  | @quoted other _ =>
    obtain ⟨rfl, behind⟩ : other = quote ∧ name ++ other :: left = body ++ quote :: rest := by
      simpa using split
    obtain ⟨more, rfl, same⟩ := split_before_quote free quoted behind
    cases more with
    | nil =>
      obtain ⟨-, rfl⟩ := List.cons.inj same
      simp
    | cons c more =>
      obtain ⟨rfl, rfl⟩ : other = c ∧ left = more ++ other :: rest := by simpa using same
      rcases closed with closed | ends
      · rw [after_cons, next_quote quoted] at closed
        have parts : name ++ other :: more ++ [other] = name ++ [other] ++ (more ++ [other]) := by
          simp
        rw [parts, within_append, closed] at within
        cases more <;> simp [Within] at within
      · simp at ends

include free in
private theorem IsOccurrence.kept {source : List Char} (occurrence : IsOccurrence name source)
    {c : Char} {trace : Trace String} {rest : List Char}
    (apart : Trace.Apart outside (.kept c :: trace))
    (split : Trace.text id (.kept c :: trace) = source ++ rest) :
    ∃ behind, .kept c :: trace = Trace.kept source ++ behind ∧ Trace.text id behind = rest ∧
      Trace.Apart (outside.after source) behind := by
  cases occurrence with
  | bare => exact apart.split split (opensNone_of_quoteFree free _)
  | @quoted quote quoted =>
    obtain ⟨rfl, name⟩ : c = quote ∧ Trace.text id trace = name ++ [quote] ++ rest := by
      simpa [Segment.text] using split
    have inner : Trace.Apart (inside c) trace := by rwa [Trace.Apart, next_quote quoted] at apart
    obtain ⟨behind, rfl, said, apart⟩ := inner.split name (within_quoted quoted free).opensNone
    exact ⟨behind, rfl, said, by rwa [after_cons, next_quote quoted]⟩

end Literal

theorem Picked.split {α : Type} {name : List Char} {s : QuoteState} {trace : Trace α}
    {cs rest : List Char} (picked : Picked name s trace) (within : s.Within cs)
    (split : trace.source = cs ++ rest) :
    ∃ behind, trace = Trace.kept cs ++ behind ∧ behind.source = rest ∧
      Picked name (s.after cs) behind := by
  induction cs generalizing s trace with
  | nil => exact ⟨trace, rfl, split, picked⟩
  | cons c cs ih =>
    match trace with
    | [] => simp at split
    | .kept d :: trace =>
      obtain ⟨rfl, rest⟩ : d = c ∧ Trace.source trace = cs ++ rest := by
        simpa [Segment.source] using split
      have inner : Picked name (s.next d) trace := picked
      obtain ⟨behind, rfl, said, ends⟩ := ih inner within.2 rest
      exact ⟨behind, rfl, said, ends⟩
    | .placed source value :: trace => exact absurd picked.1 within.1

def PlacesPicks (name value : String) (s : QuoteState) (trace : Trace String)
    (picks : Trace Unit) : Prop :=
  ∃ next, Places name value trace next ∧ next.text id = picks.text (fun _ => value) ∧
    Trace.Apart s next ∧
    ∀ source new, .placed source new ∈ next → .placed source new ∈ trace ∨ new = value

section Placing
variable {name value : String}

private theorem PlacesPicks.stays {s t : QuoteState} {trace : Trace String}
    {picks more : Trace Unit}
    (segment : Segment String) (behind : PlacesPicks name value t trace picks)
    (apart : ∀ next : Trace String, Trace.Apart t next → Trace.Apart s (segment :: next))
    (said : more.text (fun _ => value) = segment.text id ++ picks.text fun _ => value) :
    PlacesPicks name value s (segment :: trace) more := by
  obtain ⟨next, places, text, ends, own⟩ := behind
  refine ⟨segment :: next, .stays _ places, ?_, apart next ends, ?_⟩
  · rw [Trace.text_cons, text, said]
  · intro source new member
    rcases List.mem_cons.mp member with first | later
    · exact .inl (first ▸ .head _)
    · exact (own source new later).imp_left (.tail _)

private theorem PlacesPicks.place {source : List Char} {trace : Trace String} {picks : Trace Unit}
    (occurrence : IsOccurrence name.toList source)
    (behind : PlacesPicks name value outside trace picks) :
    PlacesPicks name value outside (Trace.kept source ++ trace) (.placed source () :: picks) := by
  obtain ⟨next, places, text, ends, own⟩ := behind
  refine ⟨.placed source value :: next, .place occurrence places, ?_, ⟨rfl, ends⟩, ?_⟩
  · simp [Segment.text, text]
  · intro stood new member
    rcases List.mem_cons.mp member with first | later
    · exact .inr (Segment.placed.inj first).2
    · exact (own stood new later).imp_left fun old => List.mem_append_right _ old

/-- One substitution places its literals in what was kept, as long as it does not pick a placed
literal with another value. -/
theorem exists_places (named : name.toList ≠ []) (free : ∀ c ∈ name.toList, isQuote c = false)
    {s : QuoteState} {trace : Trace String} {picks : Trace Unit} (apart : Trace.Apart s trace)
    (picked : Picked name.toList s picks) (same : picks.source = trace.text id)
    (distinct : ∀ source old, .placed source old ∈ trace →
      escapeQuoted old.toList = name.toList → old = value) :
    PlacesPicks name value s trace picks := by
  induction size : picks.length using Nat.strongRecOn generalizing s trace picks with
  | ind size ih =>
    subst size
    -- The picks and the trace are two ways to cut one text; the first part of each tells which of
    -- them reaches further.
    match picks, trace with
    | [], [] => exact ⟨[], .nil, rfl, trivial, by simp⟩
    | [], .kept c :: trace => simp [Segment.text] at same
    | [], .placed source old :: trace => simp [Segment.text, asLiteral] at same
    | .kept c :: picks, [] => simp [Segment.source] at same
    | .kept c :: picks, .kept d :: trace =>
      obtain ⟨rfl, rest⟩ : c = d ∧ Trace.source picks = Trace.text id trace := by
        simpa [Segment.source, Segment.text] using same
      have inner : Trace.Apart (s.next c) trace := apart
      have picks : Picked name.toList (s.next c) picks := picked
      have behind := ih _ (by simp) inner picks rest
        (fun source old member => distinct source old (.tail _ member)) rfl
      exact behind.stays (.kept c) (fun _ ends => ends) rfl
    | .kept c :: picks, .placed stood old :: trace =>
      obtain ⟨rfl, apart⟩ := apart
      obtain ⟨rfl, rest⟩ : c = '"' ∧
          Trace.source picks = escapeQuoted old.toList ++ ['"'] ++ Trace.text id trace := by
        simpa [Segment.source, Segment.text, asLiteral] using same
      obtain ⟨within, closed⟩ := within_asLiteral old.toList
      have inner : Picked name.toList (inside '"') picks := picked
      obtain ⟨more, rfl, said, ends⟩ := inner.split within rest
      have closed : (inside '"').after (escapeQuoted old.toList ++ ['"']) = outside := closed
      rw [closed] at ends
      have behind := ih more.length (by simp [Trace.kept]; omega) apart ends said
        (fun source old member => distinct source old (.tail _ member)) rfl
      refine behind.stays (.placed stood old) (fun _ ends => ⟨rfl, ends⟩) ?_
      simp [Segment.text, asLiteral, Trace.text_append]
    | .placed source () :: picks, [] =>
      obtain ⟨nothing, -⟩ : source = [] ∧ _ := by simpa [Segment.source] using same
      exact absurd nothing (picked.2.1.ne_nil named)
    | .placed source () :: picks, .kept c :: trace =>
      obtain ⟨rfl, occurrence, closed, rest⟩ := picked
      obtain ⟨more, split, said, kept⟩ := occurrence.kept free apart same.symm
      have outer : Trace.Apart outside more := by
        rcases closed with closed | ends
        · rwa [closed] at kept
        · obtain rfl := Trace.eq_nil_of_text (said.trans ends)
          trivial
      rw [split] at distinct ⊢
      have behind := ih picks.length (by simp) outer rest said.symm
        (fun source old member => distinct source old (List.mem_append_right _ member)) rfl
      exact behind.place occurrence
    | .placed source () :: picks, .placed stood old :: trace =>
      obtain ⟨rfl, occurrence, closed, rest⟩ := picked
      have split : source ++ Trace.source picks =
          '"' :: (escapeQuoted old.toList ++ '"' :: Trace.text id trace) := by
        simpa [Segment.source, Segment.text, asLiteral] using same
      obtain ⟨spelled, said⟩ := occurrence.eq_literal named free rfl
        (within_asLiteral old.toList).1 split closed
      obtain rfl := distinct stood old (.head _) spelled
      have behind := ih picks.length (by simp) apart.2 rest said
        (fun source old member => distinct source old (.tail _ member)) rfl
      exact behind.stays (.placed stood old) (fun _ ends => ⟨rfl, ends⟩) rfl

end Placing

def Plain (bindings : List (String × String)) : Prop :=
  ∀ binding ∈ bindings, binding.1 ≠ "" ∧ ∀ c ∈ binding.1.toList, isQuote c = false

/-- If no placed value spells a later name with another value, everything is placed in turn. -/
theorem exists_placesInTurn {bindings : List (String × String)} (plain : Plain bindings)
    (keepsApart : KeepsApart bindings) {trace : Trace String} (apart : Trace.Apart outside trace)
    (distinct : ∀ source old, .placed source old ∈ trace → ∀ later ∈ bindings,
      escapeQuoted old.toList = later.1.toList → old = later.2) :
    ∃ final, PlacesInTurn bindings trace final := by
  induction bindings generalizing trace with
  | nil => exact ⟨trace, .nil trace⟩
  | cons binding bindings ih =>
    obtain ⟨named, free⟩ := plain binding (.head _)
    have some : binding.1.toList ≠ [] := by simpa using named
    obtain ⟨picks, said, picked, substituted⟩ := exists_trace some free [] (trace.text id)
    obtain ⟨next, places, text, apart, own⟩ := exists_places some free apart picked said
      fun source old member => distinct source old member binding (.head _)
    obtain ⟨first, later⟩ := List.pairwise_cons.mp keepsApart
    have behind : ∀ source old, .placed source old ∈ next → ∀ later ∈ bindings,
        escapeQuoted old.toList = later.1.toList → old = later.2 := by
      intro source old member later found spelled
      rcases own source old member with before | rfl
      · exact distinct source old before later (.tail _ found) spelled
      · exact first later found spelled
    obtain ⟨final, others⟩ := ih (fun other member => plain other (.tail _ member)) later apart behind
    exact ⟨final, .cons places ((substituted binding.2).trans text.symm) others⟩

theorem placesInTurn_append {first second : List (String × String)} {trace final : Trace String}
    (places : PlacesInTurn (first ++ second) trace final) :
    ∃ middle, PlacesInTurn first trace middle ∧ PlacesInTurn second middle final := by
  induction first generalizing trace with
  | nil => exact ⟨trace, .nil trace, places⟩
  | cons binding first ih =>
    cases places with
    | cons places substituted others =>
      obtain ⟨middle, before, behind⟩ := ih others
      exact ⟨middle, .cons places substituted before, behind⟩

section Alone
variable {quote : Char} {body : List Char} (quoted : isQuote quote = true)
  (within : (inside quote).Within (body ++ [quote]))

include quoted within in
private theorem substituteOne_other {name : String} (named : name ≠ "")
    (free : ∀ c ∈ name.toList, isQuote c = false) (other : body ≠ name.toList) (value : String) :
    substituteOne name value (quote :: (body ++ [quote])) = quote :: (body ++ [quote]) := by
  have some : name.toList ≠ [] := by simpa using named
  obtain ⟨picks, said, picked, substituted⟩ := exists_trace some free [] (quote :: (body ++ [quote]))
  rw [substituteOne, replacePieces, substituted]
  match picks with
  | [] => simp at said
  | .kept c :: picks =>
    obtain ⟨rfl, rest⟩ : c = quote ∧ Trace.source picks = body ++ [quote] ++ [] := by
      simpa [Segment.source] using said
    have inner : Picked name.toList (outside.next c) picks := picked
    rw [next_quote quoted] at inner
    obtain ⟨behind, rfl, empty, ends⟩ := inner.split within rest
    obtain rfl := ends.eq_nil some empty
    simp [Segment.text]
  | .placed source () :: picks =>
    obtain ⟨-, occurrence, closed, -⟩ := picked
    obtain ⟨spelled, -⟩ := occurrence.eq_literal some free quoted within said closed
    exact absurd spelled other

include quoted in
private theorem substituteOne_same {name : String} (named : name ≠ "")
    (free : ∀ c ∈ name.toList, isQuote c = false) (value : String) :
    substituteOne name value (quote :: (name.toList ++ [quote])) = asLiteral value.toList := by
  have some : name.toList ≠ [] := by simpa using named
  have found : occurrence? name.toList (quote :: (name.toList ++ [quote])) =
      .some (name.toList.length + 2) := by
    have quoted := quoted
    simp only [isQuote, Bool.or_eq_true, beq_iff_eq] at quoted
    rcases quoted with rfl | rfl <;> simp [occurrence?]
  have picked := (@variableRule_found _ some free [] _ [] (.quoted quoted) (by simpa using found)
    value.toList).1 ⟨rfl, .inr rfl⟩
  have whole := replaceFrom_piece (List.cons_ne_nil _ _) picked
  simpa [substituteOne, replacePieces, replaceFrom] using whole

end Alone

private theorem PlacesInTurn.text_literal {bindings : List (String × String)}
    (plain : Plain bindings) {quote : Char} {body : List Char} (quoted : isQuote quote = true)
    (within : (inside quote).Within (body ++ [quote]))
    (other : ∀ binding ∈ bindings, body ≠ binding.1.toList) {trace final : Trace String}
    (places : PlacesInTurn bindings trace final)
    (literal : trace.text id = quote :: (body ++ [quote])) :
    final.text id = quote :: (body ++ [quote]) := by
  induction places with
  | nil => exact literal
  | @cons binding rest trace next final places substituted others ih =>
    obtain ⟨named, free⟩ := plain binding (.head _)
    have same := substituteOne_other quoted within named free (other binding (.head _)) binding.2
    rw [literal, same] at substituted
    exact ih (fun other member => plain other (.tail _ member))
      (fun binding member => other binding (.tail _ member)) substituted.symm

private theorem Places.of_placed {name value : String} (named : name ≠ "")
    {trace next : Trace String} (places : Places name value trace next)
    (only : ∀ segment ∈ trace, ∃ source old, segment = .placed source old) : next = trace := by
  induction places with
  | nil => rfl
  | stays segment rest ih => rw [ih fun other member => only other (.tail _ member)]
  | @place source trace next occurrence rest ih =>
    have some := occurrence.ne_nil (by simpa using named)
    obtain ⟨c, source, rfl⟩ := List.exists_cons_of_ne_nil some
    obtain ⟨_, _, impossible⟩ := only (.kept c) (by simp [Trace.kept])
    simp at impossible

private theorem PlacesInTurn.of_placed {bindings : List (String × String)} (plain : Plain bindings)
    {trace final : Trace String} (places : PlacesInTurn bindings trace final)
    (only : ∀ segment ∈ trace, ∃ source old, segment = .placed source old) : final = trace := by
  induction places with
  | nil => rfl
  | @cons binding rest trace next final places substituted others ih =>
    obtain rfl := places.of_placed (plain binding (.head _)).1 only
    exact ih (fun other member => plain other (.tail _ member)) only

private theorem eq_placed_of_text {trace : Trace String} {c : Char} {cs : List Char}
    {value : String} (source : trace.source = c :: cs) (other : c ≠ '"')
    (said : trace.text id = asLiteral value.toList) : ∃ source, trace = [.placed source value] := by
  match trace with
  | [] => simp at source
  | .kept d :: trace =>
    obtain ⟨rfl, -⟩ : d = c ∧ _ := by simpa [Segment.source] using source
    obtain ⟨rfl, -⟩ : d = '"' ∧ _ := by simpa [Segment.text, asLiteral] using said
    exact absurd rfl other
  | .placed stood old :: trace =>
    have first := fronts_asLiteral old.toList (Trace.text id trace)
    have second := fronts_asLiteral value.toList []
    obtain ⟨-, empty, same⟩ := first.unique second (by simpa [Segment.text] using said)
    obtain rfl := Trace.eq_nil_of_text empty
    obtain rfl : old = value := by simpa using same
    exact ⟨stood, rfl⟩

/-- A value that spells a later name is replaced by the value of that name. -/
theorem same_of_placesInTurn {before between behind : List (String × String)}
    {first later : String × String}
    (plain : Plain (before ++ first :: (between ++ later :: behind)))
    (distinct : ((before ++ first :: (between ++ later :: behind)).map (·.1)).Nodup)
    {final : Trace String}
    (places : PlacesInTurn (before ++ first :: (between ++ later :: behind))
      (.kept ('\'' :: (first.1.toList ++ ['\'']))) final)
    (spelled : escapeQuoted first.2.toList = later.1.toList) : first.2 = later.2 := by
  have plainBefore : Plain before := fun other member => plain other (by simp [member])
  have plainBetween : Plain between := fun other member => plain other (by simp [member])
  obtain ⟨named, free⟩ := plain first (by simp)
  obtain ⟨namedLater, freeLater⟩ := plain later (by simp)
  have other : ∀ binding ∈ before, first.1.toList ≠ binding.1.toList := by
    intro binding member same
    rw [List.map_append, List.nodup_append] at distinct
    exact distinct.2.2 _ (List.mem_map_of_mem member) first.1 (by simp) (String.toList_inj.mp same).symm
  obtain ⟨start, placesBefore, rest⟩ := placesInTurn_append places
  have alone := placesBefore.text_literal plainBefore rfl (within_quoted rfl free) other
    (Trace.text_kept _ _)
  have origin := placesBefore.source
  cases rest with
  | @cons _ _ _ next _ placesFirst substituted others =>
    rw [alone, substituteOne_same rfl named free] at substituted
    rw [Trace.source_kept, ← placesFirst.source] at origin
    obtain ⟨source, rfl⟩ := eq_placed_of_text origin (by decide) substituted.symm
    obtain ⟨middle, placesBetween, rest⟩ := placesInTurn_append others
    obtain rfl := placesBetween.of_placed plainBetween (by simp)
    cases rest with
    | @cons _ _ _ last _ placesLater substituted others =>
      obtain rfl := placesLater.of_placed namedLater (by simp)
      have literal : Trace.text id [.placed source first.2] =
          '"' :: (later.1.toList ++ ['"']) := by
        simp [Segment.text, asLiteral, spelled]
      have same := @substituteOne_same '"' rfl later.1 namedLater freeLater later.2
      rw [← literal, substituted] at same
      obtain ⟨other, same⟩ := eq_placed_of_text origin (by decide) same
      obtain ⟨-, values⟩ : source = other ∧ first.2 = later.2 := by simpa using same
      exact values

private theorem keepsApart_of_placesInTurn {bindings : List (String × String)}
    (plain : Plain bindings) (distinct : (bindings.map (·.1)).Nodup)
    (places : ∀ cs, ∃ final, PlacesInTurn bindings (.kept cs) final) : KeepsApart bindings := by
  suffices apart : ∀ behind before, before ++ behind = bindings → KeepsApart behind from
    apart bindings [] rfl
  intro behind
  induction behind with
  | nil => exact fun _ _ => .nil
  | cons first behind ih =>
    intro before split
    refine .cons ?_ (ih (before ++ [first]) (by simpa using split))
    intro later member spelled
    obtain ⟨between, rest, rfl⟩ := List.append_of_mem member
    subst split
    -- In single quotes the name is no literal of any value, so its literal is known to be placed.
    obtain ⟨final, placed⟩ := places ('\'' :: (first.1.toList ++ ['\'']))
    exact same_of_placesInTurn plain distinct placed spelled

theorem mem_byLength {bindings : Variables} {binding : String × String} :
    binding ∈ bindings.byLength ↔ binding ∈ bindings ∧ binding.1 ≠ "" := by
  rw [Variables.byLength, (stableSort_perm _ _).mem_iff, List.mem_filter, decide_eq_true_eq]

private theorem nodup_byLength {bindings : Variables} (distinct : (bindings.map (·.1)).Nodup) :
    (bindings.byLength.map (·.1)).Nodup := by
  have sorted := (stableSort_perm (fun a b => decide (b.1.utf8ByteSize < a.1.utf8ByteSize))
    (bindings.filter fun binding => binding.1 ≠ "")).map (·.1)
  rw [Variables.byLength, sorted.nodup_iff]
  exact distinct.sublist (List.filter_sublist.map _)

/-- Substitution is simultaneous for all texts exactly when no value of the table spells the name of
a variable that is replaced later and stands for something else. -/
theorem isSimultaneous_iff_keepsApart (entries : List (String × String))
    (free : ∀ binding ∈ entries, ∀ c ∈ binding.1.toList, isQuote c = false) :
    (∀ cs, Variables.IsSimultaneous (Dictionary.ofList entries) cs) ↔
      KeepsApart (Variables.byLength (Dictionary.ofList entries)) := by
  obtain ⟨ordered, made⟩ := Dictionary.ofList_spec entries
  have plain : Plain (Variables.byLength (Dictionary.ofList entries)) := by
    intro binding member
    obtain ⟨bound, named⟩ := mem_byLength.mp member
    exact ⟨named, free binding (made binding bound)⟩
  constructor
  · intro simultaneous
    refine keepsApart_of_placesInTurn plain (nodup_byLength ordered.nodup) fun cs => ?_
    exact isSimultaneous_iff.mp (simultaneous cs)
  · intro keepsApart cs
    refine isSimultaneous_iff.mpr (exists_placesInTurn plain keepsApart (Trace.apart_kept _ cs) ?_)
    intro source old member
    simp [Trace.kept] at member

theorem isSimultaneous_iff_keepsApart_name_in_name :
    (∀ binding ∈ [("@meta", "@me"), ("@me", "octo\"cat")],
        ∀ c ∈ binding.1.toList, isQuote c = false) ∧
      ((∀ cs, Variables.IsSimultaneous
          (Dictionary.ofList [("@meta", "@me"), ("@me", "octo\"cat")]) cs) ↔
        KeepsApart (Variables.byLength
          (Dictionary.ofList [("@meta", "@me"), ("@me", "octo\"cat")]))) := by
  have free : ∀ binding ∈ [("@meta", "@me"), ("@me", "octo\"cat")],
      ∀ c ∈ binding.1.toList, isQuote c = false := by simp [isQuote]
  exact ⟨free, isSimultaneous_iff_keepsApart _ free⟩

/-- A value that spells the name of a later variable is replaced again by the value of that one. -/
theorem not_isSimultaneous_of_value_ab :
    ¬ Variables.IsSimultaneous (Dictionary.ofList [("ab", "a"), ("a", "x")]) "ab".toList := by
  rintro ⟨final, source, said, places⟩
  have order : Variables.byLength (Dictionary.ofList [("ab", "a"), ("a", "x")]) =
      [("ab", "a"), ("a", "x")] := by decide +kernel
  have text : Variables.substitute (Dictionary.ofList [("ab", "a"), ("a", "x")]) "ab".toList =
      asLiteral "x".toList := by decide +kernel
  rw [text] at said
  obtain ⟨stood, rfl⟩ := eq_placed_of_text source (by decide) said
  obtain rfl : stood = "ab".toList := by simpa [Segment.source] using source
  rw [order] at places
  rcases places.own (.head _) with kept | ⟨binding, member, occurrence, value⟩
  · simp [Trace.kept] at kept
  · obtain rfl | rfl : binding = ("ab", "a") ∨ binding = ("a", "x") := by simpa using member
    · simp at value
    · cases occurrence

end PullQuery.Query
