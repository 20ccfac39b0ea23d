import PullQuery.Proofs.Text.LowerCase
import PullQuery.Query.Evaluation

/-! Parts of texts that a query looks for with `~`. Both sides are turned into small letters as a whole,
and a capital sigma becomes another letter at the end of a word, so that a part with a sigma at one of its
ends need not be found where it stands. Every other part is found, in a text and in each text of a list. -/
namespace PullQuery.Query
open Text

def Finds (now : Time.Instant) (whole : Value) (part : String) : Prop :=
  binaryValue now .contains whole (.text part) = .ok (.boolean true)

private theorem infix_intercalate {cs : List Char} {texts : List (List Char)} (listed : cs ∈ texts)
    (between : List Char) : cs <:+: between.intercalate texts := by
  induction texts with
  | nil => simp at listed
  | cons text texts ih =>
    cases texts with
    | nil =>
      obtain rfl := List.mem_singleton.mp listed
      simp
    | cons other texts =>
      rw [List.intercalate_cons_cons]
      rcases List.mem_cons.mp listed with rfl | later
      · exact ⟨[], between ++ between.intercalate (other :: texts), by simp⟩
      · exact (ih later).trans ⟨text ++ between, [], by simp⟩

private theorem lowerAfter_intercalate (texts : List (List Char)) :
    lowerAfter [] ([','].intercalate texts) = [','].intercalate (texts.map (lowerAfter [])) := by
  induction texts with
  | nil => rfl
  | cons text texts ih =>
    cases texts with
    | nil => simp
    | cons other texts =>
      rw [List.map_cons, List.map_cons, List.intercalate_cons_cons, List.intercalate_cons_cons,
        List.append_assoc, List.append_assoc, List.singleton_append, List.singleton_append,
        lowerAfter_comma, ih, List.map_cons]

private theorem toList_asTexts (texts : List String) :
    (Value.asTexts (texts.map .text)).toList = [','].intercalate (texts.map String.toList) := by
  induction texts with
  | nil => rfl
  | cons text texts ih =>
    cases texts with
    | nil => simp [Value.asTexts, Value.asText]
    | cons other texts =>
      rw [List.map_cons, List.map_cons, Value.asTexts_cons_cons, ← List.map_cons, String.toList_append,
        String.toList_append, ih]
      simp [List.intercalate_cons_cons, Value.asText]

theorem contains_iff {whole : Value} (present : whole.isNull = false) (part : String) :
    whole.contains (.text part) = true ↔
      lowerAfter [] part.toList <:+: lowerAfter [] whole.asText.toList := by
  have own : (Value.text part).isNull = false := rfl
  rw [Value.contains, present, own, Bool.not_false, Bool.true_and, Bool.true_and, occursIn_iff,
    Value.folded, Value.folded, lower, lower, String.toList_ofList, String.toList_ofList]
  rfl

section Finding
variable {now : Time.Instant} {part : String}

theorem finds_iff {whole : Value} :
    Finds now whole part ↔ whole.unwrapped.contains (.text part) = true := by
  have same : binaryValue now .contains whole (.text part) =
      .ok (.boolean (whole.unwrapped.contains (.text part))) := rfl
  rw [Finds, same, Except.ok.injEq, Value.boolean.injEq]

private theorem finds_text {text : String} :
    Finds now (.text text) part ↔ lowerAfter [] part.toList <:+: lowerAfter [] text.toList :=
  finds_iff.trans (contains_iff rfl part)

private theorem finds_texts {texts : List String} (several : 2 ≤ texts.length) :
    Finds now (.list (texts.map .text)) part ↔
      lowerAfter [] part.toList <:+: [','].intercalate (texts.map fun text => lowerAfter [] text.toList) := by
  have whole : (Value.list (texts.map .text)).unwrapped = .list (texts.map .text) := by
    match texts with
    | _ :: _ :: _ => rfl
  rw [finds_iff, whole, contains_iff rfl, Value.asText, toList_asTexts, lowerAfter_intercalate,
    List.map_map]
  rfl

private theorem finds_texts_of_mem {texts : List String} (several : 2 ≤ texts.length)
    {text : String} (listed : text ∈ texts) (finds : Finds now (.text text) part) :
    Finds now (.list (texts.map .text)) part := by
  have inside : lowerAfter [] text.toList ∈ texts.map fun text => lowerAfter [] text.toList :=
    List.mem_map_of_mem listed
  exact (finds_texts several).mpr ((finds_text.mp finds).trans (infix_intercalate inside _))

end Finding

/-- A part is found wherever its sigmas stay as they are, and it is found in every text that it is a part
of, and in every list of such a text and others, exactly if it has no sigma that can change. -/
theorem finds_parts_iff (now : Time.Instant) (part : String) :
    (∀ before after, SigmasStay before part.toList after → ∀ text : String,
      text.toList = before ++ part.toList ++ after → Finds now (.text text) part ∧
        ∀ texts : List String, 2 ≤ texts.length → text ∈ texts → Finds now (.list (texts.map .text)) part) ∧
    ((∀ text : String, part.toList <:+: text.toList → Finds now (.text text) part) ↔
      ¬ HasOpenSigma part.toList) ∧
    ((∀ texts : List String, 2 ≤ texts.length → (∃ text ∈ texts, part.toList <:+: text.toList) →
      Finds now (.list (texts.map .text)) part) ↔ ¬ HasOpenSigma part.toList) := by
  have everywhere (shut : ¬ HasOpenSigma part.toList) (text : String)
      (within : part.toList <:+: text.toList) : Finds now (.text text) part :=
    finds_text.mpr (infix_lower_iff.mpr shut _ within)
  refine ⟨?_, ⟨?_, everywhere⟩, ?_, ?_⟩
  · intro before after stay text split
    have finds : Finds now (.text text) part := by
      rw [finds_text, split]
      exact stay.infix_lower
    exact ⟨finds, fun texts several listed => finds_texts_of_mem several listed finds⟩
  · intro found
    refine infix_lower_iff.mp fun whole within => ?_
    simpa using finds_text.mp (found (String.ofList whole) (by simpa using within))
  · intro found isOpen
    obtain ⟨whole, sigma, within, other, fewer⟩ := isOpen.exists_fewer
    -- An empty text beside it adds a comma only.
    have several : 2 ≤ [String.ofList whole, ""].length := Nat.le_refl 2
    have finds := found _ several ⟨_, .head _, by simpa using within⟩
    have most : (lowerAfter [] part.toList).count sigma ≤ (lowerAfter [] whole).count sigma := by
      simpa [List.intercalate, lowerAfter, Ne.symm other] using
        ((finds_texts several).mp finds).sublist.count_le sigma
    exact Nat.not_lt.mpr most fewer
  · rintro shut texts several ⟨text, listed, within⟩
    exact finds_texts_of_mem several listed (everywhere shut text within)

theorem finds_parts_iff_whole_word :
    SigmasStay ['Σ', 'Α', ' '] "ΑΣ".toList [',', 'Σ'] ∧ Finds .epoch (.text "ΣΑ ΑΣ,Σ") "ΑΣ" ∧
      Finds .epoch (.list (["x", "ΣΑ ΑΣ,Σ"].map .text)) "ΑΣ" := by
  have stay : SigmasStay ['Σ', 'Α', ' '] "ΑΣ".toList [',', 'Σ'] := by
    intro front back split
    have letters : "ΑΣ".toList = ['Α', 'Σ'] := rfl
    rw [letters] at split
    obtain ⟨rfl, rfl⟩ : front = ['Α'] ∧ back = [] := by
      rcases front with _ | ⟨c, _ | ⟨d, front⟩⟩ <;> simp_all [eq_comm]
    decide +kernel
  obtain ⟨finds, listed⟩ := (finds_parts_iff .epoch "ΑΣ").1 _ _ stay "ΣΑ ΑΣ,Σ" rfl
  exact ⟨stay, finds, listed ["x", "ΣΑ ΑΣ,Σ"] (by decide) (by decide)⟩

/-- Within a word the part is not found, although it stands there. -/
theorem not_finds_part_of_word :
    "ΑΣ".toList <:+: "ΑΣΑ".toList ∧
      binaryValue .epoch .contains (.text "ΑΣΑ") (.text "ΑΣ") = .ok (.boolean false) :=
  ⟨⟨[], ['Α'], rfl⟩, congrArg (Except.ok ∘ Value.boolean) (by decide +kernel)⟩

end PullQuery.Query
