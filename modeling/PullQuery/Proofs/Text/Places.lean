import PullQuery.Proofs.Text.Segments

/-! Where rewriting a text looks for pieces. It comes to a place in front of each character that is
no later one of a picked piece, and what it writes from there on depends on nothing but the place. -/
namespace PullQuery.Text

/-- Where rewriting stands: the reversed text before it and the text behind it. -/
structure Place where
  before : List Char
  behind : List Char
  deriving DecidableEq

def placesFrom (rule : PieceRule) : (before : List Char) → (skip : Nat) → List Char → List Place
  | _, _, [] => []
  | before, skip + 1, c :: rest => placesFrom rule (c :: before) skip rest
  | before, 0, c :: rest =>
    ⟨before, c :: rest⟩ ::
      match rule before (c :: rest) with
      | none => placesFrom rule (c :: before) 0 rest
      | some piece => placesFrom rule (c :: before) (piece.width - 1) rest

private theorem placesFrom_skip (rule : PieceRule) (before source rest : List Char) :
    placesFrom rule before source.length (source ++ rest) =
      placesFrom rule (source.reverse ++ before) 0 rest := by
  induction source generalizing before with
  | nil => rfl
  | cons c source ih =>
    rw [List.length_cons, List.cons_append, placesFrom, ih, List.reverse_cons, List.append_assoc]
    rfl

theorem placesFrom_keep {rule : PieceRule} {before rest : List Char} {c : Char}
    (passed : rule before (c :: rest) = none) :
    placesFrom rule before 0 (c :: rest) =
      ⟨before, c :: rest⟩ :: placesFrom rule (c :: before) 0 rest := by
  rw [placesFrom, passed]

theorem placesFrom_piece {rule : PieceRule} {before source rest text : List Char}
    (some : source ≠ [])
    (picked : rule before (source ++ rest) = .some ⟨source.length, text⟩) :
    placesFrom rule before 0 (source ++ rest) =
      ⟨before, source ++ rest⟩ :: placesFrom rule (source.reverse ++ before) 0 rest := by
  cases source with
  | nil => exact absurd rfl some
  | cons c source =>
    rw [List.cons_append] at picked ⊢
    rw [placesFrom, picked]
    have behind := placesFrom_skip rule (c :: before) source rest
    simpa using behind

theorem exists_split_of_mem_placesFrom {rule : PieceRule} {before cs : List Char} {skip : Nat}
    {place : Place} (visited : place ∈ placesFrom rule before skip cs) :
    ∃ front text, cs = front ++ place.behind ∧ place.before = front.reverse ++ before ∧
      replaceFrom rule before skip cs = text ++ replaceFrom rule place.before 0 place.behind := by
  induction cs generalizing before skip with
  | nil => simp [placesFrom] at visited
  | cons c cs ih =>
    -- Behind the first character the step is the same whatever was picked there.
    have step : ∀ skip, place ∈ placesFrom rule (c :: before) skip cs →
        ∃ front text, c :: cs = front ++ place.behind ∧ place.before = front.reverse ++ before ∧
          replaceFrom rule (c :: before) skip cs =
            text ++ replaceFrom rule place.before 0 place.behind := by
      intro skip visited
      obtain ⟨front, text, rfl, before, written⟩ := ih visited
      exact ⟨c :: front, text, rfl, by simp [before], written⟩
    cases skip with
    | succ skip => exact step skip visited
    | zero =>
      rcases List.mem_cons.mp visited with rfl | later
      · exact ⟨[], [], rfl, rfl, rfl⟩
      · rw [replaceFrom]
        cases picked : rule before (c :: cs) with
        | none =>
          rw [picked] at later
          obtain ⟨front, text, split, before, written⟩ := step _ later
          exact ⟨front, c :: text, split, before, congrArg _ written⟩
        | some piece =>
          rw [picked] at later
          obtain ⟨front, text, split, before, written⟩ := step _ later
          refine ⟨front, piece.text ++ text, split, before, ?_⟩
          rw [List.append_assoc]
          exact congrArg _ written

end PullQuery.Text
