import PullQuery.Text.LowerCase
import Mathlib.Data.List.Count

/-! The lower case of a part of a text. What stands around a part only decides which small letter its
capital sigmas become, and of them only the first and the last can be open to it: a cased letter, or a
character that the case rules do not look past, shuts off what is behind it. -/
namespace PullQuery.Text

def endsWord (before rest : List Char) : Bool := meetsCased before && !meetsCased rest

def lowerBetween (before after : List Char) : List Char → List Char
  | [] => []
  | c :: rest =>
    (if c = 'Σ' then [if endsWord before (rest ++ after) then 'ς' else 'σ'] else lowerChar c) ++
      lowerBetween (c :: before) after rest

theorem lowerBetween_append (before after first second : List Char) :
    lowerBetween before after (first ++ second) =
      lowerBetween before (second ++ after) first ++
        lowerBetween (first.reverse ++ before) after second := by
  induction first generalizing before with
  | nil => rfl
  | cons c first ih =>
    rw [List.cons_append, lowerBetween, lowerBetween, ih]
    simp

private theorem lowerAfter_eq (before cs : List Char) :
    lowerAfter before cs = lowerBetween before [] cs := by
  induction cs generalizing before with
  | nil => rfl
  | cons c rest ih =>
    rw [lowerAfter, lowerBetween, ih, List.append_nil]
    rfl

/-- Between other texts the lower case is the same if each capital sigma ends a word or not as before. -/
theorem lowerBetween_congr {before other after rest part : List Char}
    (same : ∀ front back, part = front ++ 'Σ' :: back →
      endsWord (front.reverse ++ before) (back ++ after) =
        endsWord (front.reverse ++ other) (back ++ rest)) :
    lowerBetween before after part = lowerBetween other rest part := by
  induction part generalizing before other with
  | nil => rfl
  | cons c part ih =>
    have behind := @ih (c :: before) (c :: other) fun front back split => by
      simpa using same (c :: front) back (congrArg (c :: ·) split)
    rw [lowerBetween, lowerBetween, behind]
    by_cases sigma : c = 'Σ'
    · subst sigma
      have here := same [] part rfl
      simp only [List.reverse_nil, List.nil_append] at here
      rw [if_pos rfl, if_pos rfl, here]
    · rw [if_neg sigma, if_neg sigma]

theorem meetsCased_append (cs rest : List Char) :
    meetsCased (cs ++ rest) = if cs.all isCaseIgnorable then meetsCased rest else meetsCased cs := by
  induction cs with
  | nil => rfl
  | cons c cs ih =>
    rw [List.cons_append, meetsCased, meetsCased, List.all_cons]
    cases isCaseIgnorable c with
    | true => exact ih
    | false => rfl

private theorem meetsCased_of_all {cs : List Char} (ignorable : cs.all isCaseIgnorable = true) :
    meetsCased cs = false := by
  have whole := meetsCased_append cs []
  rwa [List.append_nil, if_pos ignorable] at whole

theorem meetsCased_shut {c : Char} (stops : isCaseIgnorable c = false) (cs rest other : List Char) :
    meetsCased (cs ++ c :: rest) = meetsCased (cs ++ c :: other) := by
  rw [meetsCased_append, meetsCased_append cs (c :: other), meetsCased, meetsCased, stops]
  rfl

theorem meetsCased_comma (cs rest : List Char) : meetsCased (cs ++ ',' :: rest) = meetsCased cs := by
  have plain : meetsCased (',' :: rest) = false := by
    rw [meetsCased, if_neg (by decide)]
    decide
  rw [meetsCased_append, plain]
  split
  · rename_i ignorable
    rw [meetsCased_of_all ignorable]
  · rfl

/-- A comma keeps texts apart: their lower case is that of each. -/
theorem lowerAfter_comma (cs rest : List Char) :
    lowerAfter [] (cs ++ ',' :: rest) = lowerAfter [] cs ++ ',' :: lowerAfter [] rest := by
  have comma : lowerChar ',' = [','] := by decide
  have first : lowerBetween [] (',' :: rest ++ []) cs = lowerBetween [] [] cs :=
    lowerBetween_congr fun front back _ => by
      simp only [endsWord, List.append_nil, meetsCased_comma]
  have second : lowerBetween (',' :: (cs.reverse ++ [])) [] rest = lowerBetween [] [] rest :=
    lowerBetween_congr fun front back _ => by
      simp only [endsWord, List.append_nil, meetsCased_comma]
  rw [lowerAfter_eq, lowerAfter_eq, lowerAfter_eq, lowerBetween_append, first, lowerBetween, second,
    if_neg (by decide), comma]
  rfl

/-- Whether every capital sigma of a part ends a word where the part stands as it does in the part
alone. -/
def SigmasStay (before part after : List Char) : Prop :=
  ∀ front back, part = front ++ 'Σ' :: back →
    endsWord (front.reverse ++ before.reverse) (back ++ after) = endsWord front.reverse back

/-- The lower case of a part occurs in that of a text where the part stands, if its sigmas stay. -/
theorem SigmasStay.infix_lower {before part after : List Char} (stay : SigmasStay before part after) :
    lowerAfter [] part <:+: lowerAfter [] (before ++ part ++ after) := by
  have same : lowerBetween before.reverse after part = lowerBetween [] [] part :=
    lowerBetween_congr fun front back split => by
      rw [stay front back split, List.append_nil, List.append_nil]
  rw [lowerAfter_eq, lowerAfter_eq, lowerBetween_append, lowerBetween_append, List.append_nil,
    List.append_nil, same]
  exact ⟨_, _, rfl⟩

/-- Whether the small letter of a capital sigma depends on what the text is a part of: it begins the text
and no cased letter comes next, or it ends the text behind a cased letter, characters that the case rules
look past aside. -/
def HasOpenSigma (part : List Char) : Prop :=
  ∃ front back, part = front ++ 'Σ' :: back ∧
    (front.all isCaseIgnorable = true ∧ meetsCased back = false ∨
      meetsCased front.reverse = true ∧ back.all isCaseIgnorable = true)

private theorem sigmasStay_of_shut {part : List Char} (shut : ¬ HasOpenSigma part)
    (before after : List Char) :
    SigmasStay before part after := by
  intro front back split
  rw [endsWord, endsWord, meetsCased_append, meetsCased_append, List.all_reverse]
  cases first : front.all isCaseIgnorable with
  | true =>
    -- Nothing in the part stands before the sigma, so something cased must follow it.
    have cased : meetsCased back = true := by
      by_contra plain
      exact shut ⟨front, back, split, .inl ⟨first, by simpa using plain⟩⟩
    have some : back.all isCaseIgnorable = false := by
      by_contra ignorable
      simp [meetsCased_of_all (by simpa using ignorable)] at cased
    simp [cased, some]
  | false =>
    cases second : back.all isCaseIgnorable with
    | false => simp
    | true =>
      have plain : meetsCased front.reverse = false := by
        by_contra cased
        exact shut ⟨front, back, split, .inr ⟨by simpa using cased, second⟩⟩
      simp [plain]

private theorem isCaseIgnorable_sigma : isCaseIgnorable 'Σ' = false := by decide +kernel

private theorem lowerBetween_sigma (before after front back : List Char) :
    lowerBetween before after (front ++ 'Σ' :: back) =
      lowerBetween before ('Σ' :: (back ++ after)) front ++
        (if endsWord (front.reverse ++ before) (back ++ after) then 'ς' else 'σ') ::
          lowerBetween ('Σ' :: (front.reverse ++ before)) after back := by
  rw [lowerBetween_append, lowerBetween, if_pos rfl]
  rfl

private theorem lowerBetween_ignorable {part : List Char}
    (ignorable : part.all isCaseIgnorable = true) (before after other rest : List Char) :
    lowerBetween before after part = lowerBetween other rest part := by
  refine lowerBetween_congr fun front back split => ?_
  simp [split, isCaseIgnorable_sigma] at ignorable

theorem count_replaced {old new : Char} (other : new ≠ old) (first second : List Char) :
    (first ++ new :: second).count old < (first ++ old :: second).count old := by
  rw [List.count_append, List.count_append, List.count_cons_self, List.count_cons_of_ne other]
  omega

/-- A text with an open sigma stands in a longer one whose lower case has fewer of one of the two small
sigmas. -/
theorem HasOpenSigma.exists_fewer {part : List Char} (isOpen : HasOpenSigma part) :
    ∃ whole sigma, part <:+: whole ∧ sigma ≠ ',' ∧
      (lowerAfter [] whole).count sigma < (lowerAfter [] part).count sigma := by
  have letter : lowerChar 'a' = ['a'] := by decide
  have cased : meetsCased ['a'] = true := by decide +kernel
  obtain ⟨front, back, rfl, ⟨ignorable, plain⟩ | ⟨word, ignorable⟩⟩ := isOpen
  · -- Behind a letter the sigma that began a word ends one.
    refine ⟨'a' :: (front ++ 'Σ' :: back), 'σ', ⟨['a'], [], by simp⟩, by decide, ?_⟩
    have ignored : front.reverse.all isCaseIgnorable = true := by rwa [List.all_reverse]
    have ends : endsWord (front.reverse ++ ['a']) (back ++ []) = true := by
      rw [endsWord, meetsCased_append, if_pos ignored, cased, List.append_nil, plain]
      rfl
    have begins : endsWord (front.reverse ++ []) (back ++ []) = false := by
      rw [endsWord, List.append_nil, meetsCased_of_all ignored]
      rfl
    have behind : lowerBetween ('Σ' :: (front.reverse ++ ['a'])) [] back =
        lowerBetween ('Σ' :: (front.reverse ++ [])) [] back :=
      lowerBetween_congr fun _ _ _ => by
        rw [endsWord, endsWord, meetsCased_shut isCaseIgnorable_sigma]
    rw [lowerAfter_eq, lowerAfter_eq, lowerBetween, if_neg (by decide), letter, lowerBetween_sigma,
      lowerBetween_sigma, ends, begins, behind, lowerBetween_ignorable ignorable ['a'] _ [] _]
    rw [List.singleton_append, List.count_cons_of_ne (by decide)]
    exact count_replaced (by decide) _ _
  · -- In front of a letter the sigma that ended a word stands within one.
    refine ⟨front ++ 'Σ' :: back ++ ['a'], 'ς', ⟨[], ['a'], by simp⟩, by decide, ?_⟩
    have ends : endsWord (front.reverse ++ []) (back ++ []) = true := by
      rw [endsWord, List.append_nil, List.append_nil, word, meetsCased_of_all ignorable]
      rfl
    have within : endsWord (front.reverse ++ []) (back ++ (['a'] ++ [])) = false := by
      rw [endsWord, List.append_nil, meetsCased_append, if_pos ignorable, List.append_nil, cased]
      simp
    have ahead : lowerBetween [] ('Σ' :: (back ++ (['a'] ++ []))) front =
        lowerBetween [] ('Σ' :: (back ++ [])) front :=
      lowerBetween_congr fun _ _ _ => by
        rw [endsWord, endsWord, meetsCased_shut isCaseIgnorable_sigma]
    have last (before : List Char) : lowerBetween before [] ['a'] = ['a'] := by
      rw [lowerBetween, if_neg (by decide), letter, lowerBetween]
      rfl
    have behind : lowerBetween ('Σ' :: (front.reverse ++ [])) (['a'] ++ []) back =
        lowerBetween ('Σ' :: (front.reverse ++ [])) [] back := lowerBetween_ignorable ignorable _ _ _ _
    rw [lowerAfter_eq, lowerAfter_eq, lowerBetween_append, lowerBetween_sigma, lowerBetween_sigma, last,
      ends, within, ahead, behind]
    rw [List.count_append, List.count_cons_of_ne (show 'a' ≠ 'ς' by decide), List.count_nil, Nat.add_zero]
    exact count_replaced (by decide) _ _

/-- A text is found in lower case in every text that it is a part of exactly if no sigma of it is open. -/
theorem infix_lower_iff {part : List Char} :
    (∀ whole, part <:+: whole → lowerAfter [] part <:+: lowerAfter [] whole) ↔ ¬ HasOpenSigma part := by
  constructor
  · intro found isOpen
    obtain ⟨whole, sigma, within, -, fewer⟩ := isOpen.exists_fewer
    exact Nat.not_lt.mpr ((found whole within).sublist.count_le sigma) fewer
  · rintro shut whole ⟨before, after, rfl⟩
    exact (sigmasStay_of_shut shut before after).infix_lower

end PullQuery.Text
