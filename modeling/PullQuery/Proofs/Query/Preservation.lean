import PullQuery.Proofs.Query.Simultaneous
import PullQuery.Proofs.Text.Partition

/-! What expanding a query does to its literals. A literal stays unless it is the name of a variable in
quotes, and what is new among the literals is the value of a variable; whatever stands within a
literal, one of the query or one of a value, is rewritten neither as a name nor as a duration. -/
namespace PullQuery.Query
open PullQuery.Text QuoteState Lexeme

/-- The literals that stay are there in their order, and any others are those of the values. -/
def CarriesLiterals (stays : List Char → Bool) (values : List String) (cs other : List Char) :
    Prop :=
  ((literals cs).filter stays).Sublist (literals other) ∧
    ∀ literal ∈ literals other, literal ∈ literals cs ∨
      ∃ value ∈ values, literal = asLiteral value.toList

section Carrying
variable {stays : List Char → Bool} {values : List String} {cs other rest left : List Char}

private theorem carriesLiterals_of_eq (same : literals other = literals cs) :
    CarriesLiterals stays values cs other := by
  rw [CarriesLiterals, same]
  exact ⟨List.filter_sublist, fun _ member => .inl member⟩

theorem CarriesLiterals.plain {c : Char} (plain : isQuote c = false)
    (carries : CarriesLiterals stays values rest left) :
    CarriesLiterals stays values (c :: rest) (c :: left) := by
  rwa [CarriesLiterals, literals_plain plain, literals_plain plain]

theorem CarriesLiterals.cons {literal : List Char}
    (carries : CarriesLiterals stays values rest left)
    (first : literals cs = literal :: literals rest)
    (second : literals other = literal :: literals left) :
    CarriesLiterals stays values cs other := by
  obtain ⟨stay, made⟩ := carries
  rw [CarriesLiterals, first, second]
  constructor
  · rw [List.filter_cons]
    split
    · exact stay.cons_cons literal
    · exact stay.cons literal
  · intro found member
    rcases List.mem_cons.mp member with rfl | later
    · exact .inl (.head _)
    · exact (made found later).imp_left (.tail _)

theorem CarriesLiterals.drop {literal : List Char}
    (carries : CarriesLiterals stays values rest other) (goes : stays literal = false)
    (first : literals cs = literal :: literals rest) : CarriesLiterals stays values cs other := by
  obtain ⟨stay, made⟩ := carries
  have kept : (literals cs).filter stays = (literals rest).filter stays := by
    rw [first, List.filter_cons, goes]
    rfl
  refine ⟨kept ▸ stay, fun found member => (made found member).imp_left fun inside => ?_⟩
  rw [first]
  exact .tail _ inside

private theorem CarriesLiterals.insert {value : String}
    (carries : CarriesLiterals stays values cs left)
    (listed : value ∈ values) (second : literals other = asLiteral value.toList :: literals left) :
    CarriesLiterals stays values cs other := by
  obtain ⟨stay, made⟩ := carries
  rw [CarriesLiterals, second]
  refine ⟨stay.cons _, fun found member => ?_⟩
  rcases List.mem_cons.mp member with rfl | later
  · exact .inr ⟨value, listed, rfl⟩
  · exact made found later

theorem CarriesLiterals.trans {others : List String} {middle last : List Char}
    (first : CarriesLiterals stays values cs middle)
    (second : CarriesLiterals stays others middle last) :
    CarriesLiterals stays (values ++ others) cs last := by
  constructor
  · have twice := first.1.filter stays
    rw [List.filter_filter] at twice
    simpa using twice.trans second.1
  · intro literal member
    rcases second.2 literal member with inside | ⟨value, listed, rfl⟩
    · refine (first.2 literal inside).imp_right ?_
      rintro ⟨value, listed, rfl⟩
      exact ⟨value, List.mem_append_left _ listed, rfl⟩
    · exact .inr ⟨value, List.mem_append_right _ listed, rfl⟩

end Carrying

private theorem literals_asLiteral (cs rest : List Char) :
    literals (asLiteral cs ++ rest) = asLiteral cs :: literals rest :=
  @literals_closed rest '"' rfl _ (spelling_escapeQuoted cs).within

section Substitution
variable {name : String} (named : name.toList ≠ []) (free : ∀ c ∈ name.toList, isQuote c = false)
  {stays : List Char → Bool}
  (goes : ∀ quote, isQuote quote = true → stays (quote :: (name.toList ++ [quote])) = false)

include free in
theorem literals_quoted {quote : Char} (quoted : isQuote quote = true) {rest : List Char}
    (closed : outside.after (quote :: (name.toList ++ [quote])) = outside ∨ rest = []) :
    literals (quote :: (name.toList ++ [quote]) ++ rest) =
      (quote :: (name.toList ++ [quote])) :: literals rest := by
  obtain ⟨within, stands⟩ := within_quoteFree quoted free
  have ends : outside.after (quote :: (name.toList ++ [quote])) =
      ((inside quote).after name.toList).next quote := by
    rw [after_cons, next_quote quoted, after_append]
    rfl
  rcases stands with inner | escaping
  · exact literals_closed quoted ⟨within, inner⟩
  · have stays : outside.after (quote :: (name.toList ++ [quote])) = inside quote := by
      rw [ends, escaping]
      rfl
    obtain rfl := closed.resolve_left (by simp [stays])
    rw [after_cons, next_quote quoted] at stays
    have leavesOpen : LeavesOpen quote (name.toList ++ [quote]) :=
      ⟨within_quoted quoted free, by simp [stays]⟩
    rw [List.append_nil, literals_open quoted leavesOpen]
    rfl

include named free goes in
/-- Replacing a variable carries all literals over that are not its name in quotes. -/
theorem Picked.carriesLiterals {trace : Trace Unit} (picked : Picked name.toList outside trace)
    (value : String) :
    CarriesLiterals stays [value] trace.source (trace.text fun _ => value) := by
  induction size : trace.length using Nat.strongRecOn generalizing trace with
  | ind size ih =>
    subst size
    match trace with
    | [] => exact carriesLiterals_of_eq rfl
    | .placed source () :: trace =>
      obtain ⟨-, occurrence, closed, behind⟩ := picked
      have carries := ih trace.length (by simp) behind rfl
      have placed := literals_asLiteral value.toList (Trace.text (fun _ => value) trace)
      cases occurrence with
      | bare =>
        have same : literals (name.toList ++ Trace.source trace) = literals (Trace.source trace) :=
          literals_prefix free
        refine CarriesLiterals.insert ?_ (.head _) placed
        rwa [Trace.source_cons, CarriesLiterals, Segment.source, same]
      | @quoted quote quoted =>
        exact (carries.drop (goes quote quoted) (literals_quoted free quoted closed)).insert
          (.head _) placed
    | .kept c :: trace =>
      cases quoted : isQuote c with
      | false =>
        have behind : Picked name.toList (outside.next c) trace := picked
        rw [next_plain quoted] at behind
        exact (ih trace.length (by simp) behind rfl).plain quoted
      | true =>
        have inner : Picked name.toList (outside.next c) trace := picked
        rw [next_quote quoted] at inner
        rcases exists_body c (Trace.source trace) with ⟨body, rest, split, isBody⟩ | leavesOpen
        -- Up to the closing quote nothing is replaced.
        · have split : Trace.source trace = (body ++ [c]) ++ rest := by simpa using split
          obtain ⟨behind, rfl, rfl, ends⟩ := inner.split isBody.closing split
          have closed : (inside c).after (body ++ [c]) = outside := by
            rw [after_append, isBody.2]
            exact next_closing quoted
          rw [closed] at ends
          have shorter : behind.length < (Segment.kept c ::
              (Trace.kept (body ++ [c]) ++ behind)).length := by
            simp [Trace.kept]
            omega
          refine @CarriesLiterals.cons _ _ _ _ _ _ (c :: (body ++ [c]))
            (ih behind.length shorter ends rfl) ?_ ?_
          · rw [Trace.source_cons, Trace.source_append, Trace.source_kept]
            exact literals_closed quoted isBody
          · rw [Trace.text_cons, Trace.text_append, Trace.text_kept]
            exact literals_closed quoted isBody
        · obtain ⟨behind, whole, empty, ends⟩ :=
            inner.split leavesOpen.1 (List.append_nil _).symm
          obtain rfl := ends.eq_nil named empty
          have stays : Trace.text (fun _ => value) trace = Trace.source trace := by
            rw [List.append_nil] at whole
            exact (congrArg _ whole).trans (Trace.text_kept _ _)
          refine carriesLiterals_of_eq ?_
          rw [Trace.source_cons, Trace.text_cons, stays]
          rfl

end Substitution

theorem carriesLiterals_substitute {stays : List Char → Bool} {bindings : List (String × String)}
    (plain : Plain bindings)
    (goes : ∀ binding ∈ bindings, ∀ quote, isQuote quote = true →
      stays (quote :: (binding.1.toList ++ [quote])) = false) (cs : List Char) :
    CarriesLiterals stays (bindings.map (·.2)) cs
      (bindings.foldl (fun cs binding => substituteOne binding.1 binding.2 cs) cs) := by
  induction bindings generalizing cs with
  | nil => exact carriesLiterals_of_eq rfl
  | cons binding bindings ih =>
    obtain ⟨nonempty, free⟩ := plain binding (.head _)
    have named : binding.1.toList ≠ [] := by simpa using nonempty
    obtain ⟨trace, rfl, picked, said⟩ := exists_trace named free [] cs
    have first := picked.carriesLiterals named free (goes binding (.head _)) binding.2
    rw [← said binding.2] at first
    exact first.trans (ih (fun other member => plain other (.tail _ member))
      (fun other member => goes other (.tail _ member)) _)

theorem literals_replaceFrom_durationRule {before : List Char}
    (outer : outside.after before.reverse = outside) (cs : List Char) :
    literals (replaceFrom durationRule before 0 cs) = literals cs := by
  induction size : cs.length using Nat.strongRecOn generalizing before cs with
  | ind size ih =>
    subst size
    cases cs with
    | nil => rfl
    | cons c cs =>
      cases quoted : isQuote c with
      | true =>
        rcases exists_body c cs with ⟨body, rest, rfl, isBody⟩ | leavesOpen
        · have closed : outside.after ((c :: (body ++ [c])).reverse ++ before).reverse =
              outside := by
            rw [after_reverse_append, outer]
            exact isBody.after_literal quoted
          have split : c :: (body ++ c :: rest) = c :: (body ++ [c]) ++ rest := by simp
          rw [split, replaceFrom_durationRule_literal outer quoted isBody.1,
            literals_closed quoted isBody, literals_closed quoted isBody,
            ih rest.length (by simp; omega) closed rest rfl]
        · have opens : outside.after (c :: before).reverse = inside c := by
            rw [after_reverse_cons, outer, next_quote quoted]
          have body := @replaceFrom_durationRule_within (c :: before) cs [] (opens ▸ leavesOpen.1)
            (by simp [AtQuote])
          rw [List.append_nil] at body
          rw [replaceFrom_keep (durationRule_quote quoted), body, replaceFrom, List.append_nil]
      | false =>
        obtain passed | ⟨source, left, text, split, some, picked, free, plain, -⟩ :=
          durationRule_cases before (c :: cs)
        · have next : outside.after (c :: before).reverse = outside := by
            rw [after_reverse_cons, outer, next_plain quoted]
          rw [replaceFrom_keep passed, literals_plain quoted, literals_plain quoted,
            ih cs.length (by simp) next cs rfl]
        · have next : outside.after (source.reverse ++ before).reverse = outside := by
            rw [after_reverse_append, outer, after_quoteFree free]
          rw [split] at picked ⊢
          rw [replaceFrom_piece some picked, literals_prefix plain, literals_prefix free,
            ih left.length (shorter_behind some split) next left rfl]

private theorem literals_durationsInSeconds (cs : List Char) :
    literals (durationsInSeconds cs) = literals cs :=
  literals_replaceFrom_durationRule rfl cs

def Variables.isQuoted (bindings : Variables) (literal : List Char) : Bool :=
  bindings.any fun binding => binding.1 ≠ "" &&
    (literal == '"' :: (binding.1.toList ++ ['"']) ||
      literal == '\'' :: (binding.1.toList ++ ['\'']))

private theorem Variables.isQuoted_name {bindings : Variables} {binding : String × String}
    (bound : binding ∈ bindings) (named : binding.1 ≠ "") {quote : Char}
    (quoted : isQuote quote = true) :
    bindings.isQuoted (quote :: (binding.1.toList ++ [quote])) = true := by
  simp only [isQuote, Bool.or_eq_true, beq_iff_eq] at quoted
  refine List.any_eq_true.mpr ⟨binding, bound, ?_⟩
  rcases quoted with rfl | rfl <;> simp [named]

/-- Expanding a query keeps each literal that is not the name of a variable in quotes, in their
order, puts the values of the variables there and makes no other, and no duration within a literal
is rewritten, be it one of the query or one of a value. -/
theorem literals_expand (bindings : Variables)
    (free : ∀ binding ∈ bindings, ∀ c ∈ binding.1.toList, isQuote c = false) (cs : List Char) :
    ((literals cs).filter fun literal => !bindings.isQuoted literal).Sublist
        (literals (expand bindings cs)) ∧
      (∀ literal ∈ literals (expand bindings cs), literal ∈ literals cs ∨
        ∃ binding ∈ bindings, binding.1 ≠ "" ∧ literal = asLiteral binding.2.toList) ∧
      literals (expand bindings cs) = literals (bindings.substitute cs) := by
  have same : literals (expand bindings cs) = literals (bindings.substitute cs) :=
    literals_durationsInSeconds _
  have plain : Plain bindings.byLength := by
    intro binding member
    obtain ⟨bound, named⟩ := mem_byLength.mp member
    exact ⟨named, free binding bound⟩
  have goes : ∀ binding ∈ bindings.byLength, ∀ quote, isQuote quote = true →
      (!bindings.isQuoted (quote :: (binding.1.toList ++ [quote]))) = false := by
    intro binding member quote quoted
    obtain ⟨bound, named⟩ := mem_byLength.mp member
    rw [Variables.isQuoted_name bound named quoted, Bool.not_true]
  obtain ⟨stay, made⟩ := @carriesLiterals_substitute (fun literal => !bindings.isQuoted literal) _
    plain goes cs
  refine ⟨same ▸ stay, ?_, same⟩
  intro literal member
  refine (made literal (same ▸ member)).imp_right ?_
  rintro ⟨value, listed, rfl⟩
  obtain ⟨binding, ranked, rfl⟩ := List.mem_map.mp listed
  obtain ⟨bound, named⟩ := mem_byLength.mp ranked
  exact ⟨binding, bound, named, rfl⟩

/-- The user's name in quotes goes, the name and the duration in a longer literal stay, and so does
what runs to the end. -/
theorem literals_expand_login_with_duration :
    (∀ binding ∈ Variables.ofUser "7d \"@me\"", ∀ c ∈ binding.1.toList, isQuote c = false) ∧
      (let cs := "'@me' or \"to @me in 7d\" or @me > 7d or 'it\\'s 2h".toList
       ((literals cs).filter fun literal =>
            !Variables.isQuoted (Variables.ofUser "7d \"@me\"") literal).Sublist
          (literals (expand (Variables.ofUser "7d \"@me\"") cs)) ∧
        (∀ literal ∈ literals (expand (Variables.ofUser "7d \"@me\"") cs), literal ∈ literals cs ∨
          ∃ binding ∈ Variables.ofUser "7d \"@me\"",
            binding.1 ≠ "" ∧ literal = asLiteral binding.2.toList) ∧
        literals (expand (Variables.ofUser "7d \"@me\"") cs) =
          literals (Variables.substitute (Variables.ofUser "7d \"@me\"") cs)) := by
  have free : ∀ binding ∈ Variables.ofUser "7d \"@me\"", ∀ c ∈ binding.1.toList,
      isQuote c = false := by
    simp [Variables.ofUser, Variables.me, isQuote]
  exact ⟨free, literals_expand _ free _⟩

end PullQuery.Query
