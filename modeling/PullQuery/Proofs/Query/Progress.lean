import PullQuery.Proofs.Query.DescentAgreement

/-! Every expression takes a token. Reading one expression after the other therefore comes to an end, and
so does the descent, whose calls nest no deeper than a linear function of the number of tokens. -/
namespace PullQuery.Query
open Grammar

def afterCalls (table : OperatorTable) : (count : Nat) → TokenStream → Except ParseError TokenStream
  | 0, stream => .ok stream
  | count + 1, stream => do
    let (_, rest) ← parseFirst table stream
    afterCalls table count rest

section Fronts
variable {table : OperatorTable} {ending : Except LexError Nat} {s : State} {lexemes rest : List Lexeme}
  {e : Expr}

private theorem exists_front (read : expressionFrom table ending s lexemes = .ok (e, rest)) :
    ∃ front, lexemes = front ++ rest := by
  induction lexemes generalizing s with
  | nil =>
    cases ending with
    | error error => simp [expressionFrom] at read
    | ok offset =>
      cases finished : s.finish <;> simp [expressionFrom, finished, Except.map, Except.mapError] at read
      exact ⟨[], read.2.symm⟩
  | cons lexeme lexemes ih =>
    rw [expressionFrom] at read
    split at read
    · cases finished : s.finish <;> simp [finished, Except.map, Except.mapError] at read
      exact ⟨[], read.2⟩
    · split at read
      · obtain ⟨front, rfl⟩ := ih read
        exact ⟨lexeme :: front, rfl⟩
      · simp at read

theorem exists_front_of_idle {lexeme : Lexeme} (idle : s.operand = none)
    (read : expressionFrom table ending s (lexeme :: lexemes) = .ok (e, rest)) :
    ∃ front, lexemes = front ++ rest := by
  rw [expressionFrom, if_neg (by simp [isComplete_of_idle idle])] at read
  split at read
  · exact exists_front read
  · simp at read

end Fronts

section Calls
variable {table : OperatorTable} {stream rest : TokenStream} {e : Expr}

private theorem parseFirst_cons (table : OperatorTable) (ending : Except LexError Nat)
    (lexeme : Lexeme) (lexemes : List Lexeme) :
    parseFirst table ⟨lexeme :: lexemes, ending⟩ =
      (expressionFrom table ending initial (lexeme :: lexemes)).map fun found =>
        (found.1, ⟨found.2, ending⟩) := by
  cases found : expressionFrom table ending initial (lexeme :: lexemes) <;>
    simp [parseFirst, found, Except.map]

/-- An expression takes a token at least, and leaves the tokens behind it as they are. -/
theorem parseFirst_takes (read : parseFirst table stream = .ok (e, rest)) :
    rest.ending = stream.ending ∧ ∃ front, front ≠ [] ∧ stream.lexemes = front ++ rest.lexemes := by
  obtain ⟨lexemes, ending⟩ := stream
  cases lexemes with
  | nil => cases ending <;> cases read
  | cons lexeme lexemes =>
    rw [parseFirst_cons] at read
    cases found : expressionFrom table ending initial (lexeme :: lexemes) with
    | error error => simp [found, Except.map] at read
    | ok result =>
      obtain ⟨rfl, rfl⟩ : result.1 = e ∧ ⟨result.2, ending⟩ = rest := by simpa [found, Except.map] using read
      obtain ⟨front, rfl⟩ := exists_front_of_idle rfl found
      exact ⟨rfl, lexeme :: front, by simp, rfl⟩

private theorem parseFirst_boundary
    (boundary : Descent.isBoundary (stream.lexemes.head?.map (·.token)) = true) :
    ∃ error, parseFirst table stream = .error error := by
  obtain ⟨lexemes, ending⟩ := stream
  cases lexemes with
  | nil =>
    cases ending with
    | error error => exact ⟨_, rfl⟩
    | ok offset => exact ⟨_, rfl⟩
  | cons lexeme lexemes =>
    have stuck : initial.step? table lexeme.token = none := by
      rcases Descent.eq_of_isBoundary boundary with ended | closes | separates
      · simp at ended
      · obtain same : lexeme.token = .closeParen := by simpa using closes
        rw [same]
        rfl
      · obtain same : lexeme.token = .comma := by simpa using separates
        rw [same]
        rfl
    have idle : initial.isComplete table lexeme.token = false := isComplete_of_idle rfl
    exact ⟨⟨.unexpected lexeme.token, lexeme.start⟩, by
      simp [parseFirst_cons, expressionFrom, idle, stuck, Except.map]⟩

private theorem afterCalls_fails {count : Nat} (fewer : stream.lexemes.length < count) :
    ∃ error, afterCalls table count stream = .error error := by
  induction count generalizing stream with
  | zero => simp at fewer
  | succ count ih =>
    cases read : parseFirst table stream with
    | error error => exact ⟨error, by rw [afterCalls, read]; rfl⟩
    | ok found =>
      obtain ⟨e, rest⟩ := found
      obtain ⟨-, front, some, split⟩ := parseFirst_takes read
      have shorter : rest.lexemes.length < count := by
        have taken : 0 < front.length := List.length_pos_iff.mpr some
        rw [split, List.length_append] at fewer
        omega
      obtain ⟨error, failed⟩ := ih shorter
      exact ⟨error, by rw [afterCalls, read]; exact failed⟩

end Calls

/-- An expression that is read takes a token at least, and none is read at the end, at a closing
parenthesis or at a comma. Reading one after the other fails as soon as all tokens are taken, if not
before. The calls that read an expression or a query nest no deeper than six for each token and a few
more. -/
theorem parser_makes_progress (table : OperatorTable) :
    (∀ stream rest e, parseFirst table stream = .ok (e, rest) →
      rest.ending = stream.ending ∧ ∃ front, front ≠ [] ∧ stream.lexemes = front ++ rest.lexemes) ∧
    (∀ stream : TokenStream, Descent.isBoundary (stream.lexemes.head?.map (·.token)) = true →
      ∃ error, parseFirst table stream = .error error) ∧
    (∀ stream : TokenStream, ∃ error,
      afterCalls table (stream.lexemes.length + 1) stream = .error error) ∧
    (∀ (stream : TokenStream) (depth : Nat), 6 * stream.lexemes.length + 3 ≤ depth →
      Descent.expression table depth stream = (parseFirst table stream).mapError .fault) ∧
    ∀ (cs : List Char) (depth : Nat), 6 * (tokensOf cs).lexemes.length + 4 ≤ depth →
      Descent.query table depth (tokensOf cs) = (parse table cs).mapError .fault :=
  ⟨fun _ _ _ => parseFirst_takes, fun _ => parseFirst_boundary,
    fun _ => afterCalls_fails (Nat.lt_succ_self _), fun _ _ => Descent.expression_eq,
    fun _ _ => Descent.query_eq⟩

theorem parser_makes_progress_before_parenthesis :
    let closing : Lexeme := ⟨2, 3, .closeParen⟩
    let rest : TokenStream := ⟨[closing], .ok 3⟩
    let stream : TokenStream := ⟨[⟨0, 1, .minus⟩, ⟨1, 2, .name "a"⟩, closing], .ok 3⟩
    let e : Expr := .unary .negate (.name "a")
    (parseFirst .standard stream = .ok (e, rest) ∧
        Descent.isBoundary (rest.lexemes.head?.map (·.token)) = true ∧
        6 * stream.lexemes.length + 3 ≤ 21 ∧ 6 * (tokensOf "-a)".toList).lexemes.length + 4 ≤ 22) ∧
      (rest.ending = stream.ending ∧ ∃ front, front ≠ [] ∧ stream.lexemes = front ++ rest.lexemes) ∧
      (∃ error, parseFirst .standard rest = .error error) ∧
      (∃ error, afterCalls .standard 4 stream = .error error) ∧
      Descent.expression .standard 21 stream = (parseFirst .standard stream).mapError .fault ∧
      Descent.query .standard 22 (tokensOf "-a)".toList) =
        (parse .standard "-a)".toList).mapError .fault := by
  intro closing rest stream e
  have read : parseFirst .standard stream = .ok (e, rest) := rfl
  have short : 6 * (tokensOf "-a)".toList).lexemes.length + 4 ≤ 22 := by decide +kernel
  obtain ⟨takes, refuses, fails, expression, query⟩ := parser_makes_progress .standard
  exact ⟨⟨read, rfl, le_rfl, short⟩, takes stream rest e read, refuses rest rfl, fails stream,
    expression stream 21 le_rfl, query _ 22 short⟩

end PullQuery.Query
