import PullQuery.Proofs.Query.DurationTokens
import PullQuery.Proofs.Query.LiteralTokens
import Mathlib.Data.List.Forall2

/-! Reading a text again when its durations have become seconds. What is left as it is between them
is read as before, token by token, and each name has a token that stands for it. -/
namespace PullQuery.Query
open PullQuery.Number PullQuery.Text QuoteState Lexeme

def isNameSign (c : Char) : Bool := c == '$' || c == '@'

theorem isNameSign_eq_false {p : Char → Bool} (apart : p '$' = false ∧ p '@' = false) {c : Char}
    (holds : p c = true) : isNameSign c = false := by
  cases sign : isNameSign c with
  | false => rfl
  | true =>
    simp only [isNameSign, Bool.or_eq_true, beq_iff_eq] at sign
    rcases sign with rfl | rfl
    · simp [apart.1] at holds
    · simp [apart.2] at holds

def writesDigits (place : Place) : Bool :=
  (conversionAt? place).any fun conversion => 0 ≤ conversion.seconds

/-- Whether the text begins with a character of names other than a dollar. Behind a unit this is one
that no token begins with. -/
def goesOn (cs : List Char) : Bool := cs.head?.any fun c => isNamePart c && c != '$'

/-- Whether the seconds that are written at a place stand in front of what only goes on with a name,
and are themselves no part of a name. -/
def breaksName (place : Place) : Bool :=
  (conversionAt? place).any fun conversion =>
    !(writesDigits place && place.before.head?.any isNameSign) &&
      goesOn (place.behind.drop conversion.width)

theorem breaksName_eq_goesOn {place : Place} {conversion : Conversion}
    (found : conversionAt? place = some conversion)
    (digitless : place.before.head?.any isNameSign = true → writesDigits place = false) :
    breaksName place = goesOn (place.behind.drop conversion.width) := by
  have apart : (writesDigits place && place.before.head?.any isNameSign) = false := by
    cases sign : place.before.head?.any isNameSign with
    | false => exact Bool.and_false _
    | true => rw [digitless sign, Bool.false_and]
  rw [breaksName, found, Option.any_some, apart]
  rfl

/-- Whether digits are written for a duration directly behind a character of the name `source`, where
`after` is the text behind the name. -/
def takesDigits (after : List Char) : (source : List Char) → Bool
  | [] => false
  | c :: source => writesDigits ⟨[c], source ++ after⟩ || takesDigits after source

def Cut.takesDigits (cut : Cut) : Bool := PullQuery.Query.takesDigits cut.after cut.source

/-- The names among the tokens of a text that do not stand directly behind a number, where `behind` is
the text behind a number that was read just before. -/
def looseNames : (behind : Option (List Char)) → List Cut → List Cut
  | _, [] => []
  | behind, cut :: cuts =>
    match cut.token with
    | .integer _ | .float _ => looseNames (some cut.after) cuts
    | .name _ =>
      if behind = some (cut.source ++ cut.after) then looseNames none cuts
      else cut :: looseNames none cuts
    | _ => looseNames none cuts

def Renames (cut : Cut) (token : Token) : Prop :=
  ∃ name, token = .name name ∧ (token = cut.token ↔ cut.takesDigits = false)

def Follows (names : List Cut) (tokens : List Token) : Prop :=
  ∃ others, others.Sublist tokens ∧ List.Forall₂ Renames names others

/-- The text can be read exactly under the condition, and as tokens that stand for the names. -/
structure Rereads (sound : Prop) (names : List Cut) (cs : List Char) : Prop where
  reads : sound ↔ ∃ tokens, Lexes cs tokens
  follows : ∀ tokens, Lexes cs tokens → Follows names tokens

def IsSound (before cs : List Char) : Prop :=
  ∀ place ∈ placesFrom durationRule before 0 cs, breaksName place = false

/-- Rewriting leaves the characters as they are and goes on behind them. -/
structure Passes (before source rest : List Char) : Prop where
  text : replaceFrom durationRule before 0 (source ++ rest) =
    source ++ replaceFrom durationRule (source.reverse ++ before) 0 rest
  sound : IsSound before (source ++ rest) ↔ IsSound (source.reverse ++ before) rest

section Rereading
variable {sound other : Prop} {names : List Cut} {out source : List Char} {found : Token}

private theorem Follows.skip {tokens : List Token} (follows : Follows names tokens)
    (token : Token) :
    Follows names (token :: tokens) := by
  obtain ⟨others, part, renames⟩ := follows
  exact ⟨others, part.cons token, renames⟩

private theorem Follows.tail {cut : Cut} {tokens : List Token}
    (follows : Follows (cut :: names) tokens) :
    Follows names tokens := by
  obtain ⟨others, part, renames⟩ := follows
  cases renames with
  | cons first renames => exact ⟨_, (List.sublist_cons_self _ _).trans part, renames⟩

theorem Lexeme.Fronts.lexes_cons {tokens : List Token} (fronts : Fronts source out found)
    (lexes : Lexes (source ++ out) tokens) : ∃ others, tokens = found :: others ∧ Lexes out others := by
  cases tokens with
  | nil =>
    obtain ⟨c, run, rfl, plain⟩ := fronts.exists_cons
    rcases lexes.uncons with ⟨blank, -⟩ | ⟨_, _, _, _, -, none, -⟩
    · simp [plain] at blank
    · simp at none
  | cons first others =>
    obtain ⟨rfl, behind⟩ := fronts.lexes_iff.mp lexes
    exact ⟨others, rfl, behind⟩

theorem Rereads.iff (rereads : Rereads sound names out) (same : other ↔ sound) :
    Rereads other names out := ⟨same.trans rereads.reads, rereads.follows⟩

theorem Rereads.tail {cut : Cut} (rereads : Rereads sound (cut :: names) out) :
    Rereads sound names out :=
  ⟨rereads.reads, fun tokens lexes => (rereads.follows tokens lexes).tail⟩

theorem Rereads.token (fronts : Fronts source out found) (behind : Rereads sound names out) :
    Rereads sound names (source ++ out) where
  reads := by
    rw [behind.reads]
    constructor
    · rintro ⟨tokens, lexes⟩
      exact ⟨_, .token fronts lexes⟩
    · rintro ⟨tokens, lexes⟩
      obtain ⟨others, -, inner⟩ := fronts.lexes_cons lexes
      exact ⟨others, inner⟩
  follows := by
    intro tokens lexes
    obtain ⟨others, rfl, inner⟩ := fronts.lexes_cons lexes
    exact (behind.follows others inner).skip found

theorem Rereads.name {cut : Cut} (fronts : Fronts source out found) (renames : Renames cut found)
    (behind : Rereads sound names out) : Rereads sound (cut :: names) (source ++ out) where
  reads := (Rereads.token fronts behind).reads
  follows := by
    intro tokens lexes
    obtain ⟨others, rfl, inner⟩ := fronts.lexes_cons lexes
    obtain ⟨named, part, follows⟩ := behind.follows others inner
    exact ⟨found :: named, part.cons_cons found, .cons renames follows⟩

theorem Rereads.blank {c : Char} (blank : isBlank c = true) (behind : Rereads sound names out) :
    Rereads sound names (c :: out) where
  reads := by simp only [behind.reads, lexes_blank_iff blank]
  follows := fun tokens lexes => behind.follows tokens ((lexes_blank_iff blank).mp lexes)

theorem Rereads.nil : Rereads True [] [] where
  reads := by simpa using ⟨[], Lexes.nil⟩
  follows := fun _ _ => ⟨[], List.nil_sublist _, .nil⟩

theorem Rereads.broken (names : List Cut) (unread : ∀ tokens, ¬ Lexes out tokens) :
    Rereads False names out where
  reads := by simpa using unread
  follows := fun tokens lexes => absurd lexes (unread tokens)

theorem Rereads.seconds {d : Duration} {seconds : Int} (length : d.seconds? = some seconds)
    (stops : StopsRun Char.isDigit out) (point : startsFraction out = false)
    (behind : Rereads sound names out) : Rereads sound names (intDigits seconds ++ out) := by
  obtain ⟨n, nonnegative, -, rfl⟩ := d.exists_word length
  have number := Rereads.token (fronts_natDigits nonnegative stops point) behind
  by_cases minus : d.negative = true ∧ 0 < n.toInt
  · rw [if_pos minus.1, intDigits_negative minus.2]
    exact @Rereads.token _ _ _ ['-'] _ (fronts_minus _) number
  · have plain : (if d.negative then -n.toInt else n.toInt) = n.toInt := by
      split <;> simp_all
      omega
    rwa [plain, intDigits_nonnegative nonnegative]

end Rereading

section Passing
variable {before source rest : List Char}

theorem Passes.nil (before rest : List Char) : Passes before [] rest := ⟨rfl, Iff.rfl⟩

theorem Passes.append {first second : List Char} (passes : Passes before first (second ++ rest))
    (behind : Passes (first.reverse ++ before) second rest) :
    Passes before (first ++ second) rest where
  text := by
    rw [List.append_assoc, passes.text, behind.text]
    simp
  sound := by
    rw [List.append_assoc, passes.sound, behind.sound]
    simp

theorem passes_char {c : Char} (none : Duration.scan? (c :: rest) = none) (before : List Char) :
    Passes before [c] rest := by
  have passed : durationRule before (c :: rest) = .none := by simp [durationRule, none]
  refine ⟨replaceFrom_keep passed, ?_⟩
  have whole : breaksName ⟨before, c :: rest⟩ = false := by simp [breaksName, conversionAt?, none]
  simp [IsSound, placesFrom_keep passed, whole]

theorem passes_run (none : ∀ front back, source = front ++ back → back ≠ [] →
    Duration.scan? (back ++ rest) = none) (before : List Char) : Passes before source rest := by
  induction source generalizing before with
  | nil => exact .nil before rest
  | cons c source ih =>
    have first := passes_char (none [] (c :: source) rfl (List.cons_ne_nil c source)) before
    refine @Passes.append _ _ [c] source first (ih (fun front back split some => ?_) _)
    exact none (c :: front) back (by rw [split]; rfl) some

theorem passes_plain (plain : ∀ c ∈ source, c ≠ '-' ∧ isDecimal c = false) (before : List Char) :
    Passes before source rest := by
  refine passes_run (fun front back split some => ?_) before
  obtain ⟨c, back, rfl⟩ := List.exists_cons_of_ne_nil some
  have other := plain c (by simp [split])
  exact Duration.scan?_plain (by simpa using other.1) (by simpa [StopsRun] using other.2)

private theorem breaksName_of_none {place : Place} (none : conversionAt? place = none) :
    breaksName place = false := by simp [breaksName, none]

theorem passes_duration (some : source ≠ []) {d : Duration}
    (scanned : Duration.scan? (source ++ rest) = .some (d, source.length))
    (stays : conversionAt? ⟨before, source ++ rest⟩ = none) : Passes before source rest := by
  have left := durationRule_left scanned stays
  rw [List.take_left] at left
  refine ⟨replaceFrom_piece some left, ?_⟩
  simp [IsSound, placesFrom_piece some left, breaksName_of_none stays]

theorem converts (some : source ≠ []) {conversion : Conversion}
    (found : conversionAt? ⟨before, source ++ rest⟩ = .some conversion)
    (width : conversion.width = source.length) :
    replaceFrom durationRule before 0 (source ++ rest) =
        intDigits conversion.seconds ++ replaceFrom durationRule (source.reverse ++ before) 0 rest ∧
      (IsSound before (source ++ rest) ↔ breaksName ⟨before, source ++ rest⟩ = false ∧
        IsSound (source.reverse ++ before) rest) := by
  have picked := durationRule_converted found
  rw [width] at picked
  refine ⟨replaceFrom_piece some picked, ?_⟩
  simp [IsSound, placesFrom_piece some picked]

/-- Inside of a literal durations are passed over, up to the next quote. -/
theorem passes_within {body : List Char} (within : (outside.after before.reverse).Within body)
    (quote : AtQuote rest) : Passes before body rest := by
  refine within_induction quote (fun before => .nil before rest) ?_ ?_ within
  · intro before c body none behind
    exact @Passes.append _ _ [c] body (passes_char none before) behind
  · intro before source more d some scanned inner behind
    have stays : conversionAt? ⟨before, source ++ (more ++ rest)⟩ = none := by
      rw [Option.eq_none_iff_forall_ne_some]
      intro conversion found
      exact inner (conversionAt?_eq_some.mp found).2.2.1
    exact (passes_duration some scanned stays).append behind

end Passing
end PullQuery.Query
