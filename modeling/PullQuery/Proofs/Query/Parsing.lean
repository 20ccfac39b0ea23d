import PullQuery.Query.Grammar
import PullQuery.Proofs.Query.Tokens

/-! The parser as a run over tokens. What a text parses to is decided by the state that its tokens
lead to, wherever they stand in the text. -/
namespace PullQuery.Query.Grammar

def run (table : OperatorTable) (s : State) (tokens : List Token) : Option State :=
  tokens.foldlM (State.step? table) s

@[simp] theorem run_nil (table : OperatorTable) (s : State) : run table s [] = some s := rfl

@[simp] theorem run_cons (table : OperatorTable) (s : State) (token : Token)
    (tokens : List Token) :
    run table s (token :: tokens) = (s.step? table token).bind (run table · tokens) := rfl

theorem run_append (table : OperatorTable) (s : State) (tokens others : List Token) :
    run table s (tokens ++ others) = (run table s tokens).bind (run table · others) :=
  List.foldlM_append

private theorem parseFrom_ok {table : OperatorTable} {s : State} {stop : Nat}
    {lexemes : List Lexeme} {e : Expr} :
    parseFrom table (.ok stop) s lexemes = .ok e ↔
      ∃ final, run table s (lexemes.map (·.token)) = some final ∧ final.finish = .ok e := by
  induction lexemes generalizing s with
  | nil =>
    rw [parseFrom]
    cases finished : s.finish <;> simp [finished, Except.mapError]
  | cons lexeme rest ih =>
    rw [parseFrom]
    cases next : s.step? table lexeme.token with
    | none => simp [next]
    | some next' => simp [next, ih]

private theorem parseFrom_fault {table : OperatorTable} {s : State} {error : LexError}
    {lexemes : List Lexeme} {e : Expr} : parseFrom table (.error error) s lexemes ≠ .ok e := by
  induction lexemes generalizing s with
  | nil => simp [parseFrom]
  | cons lexeme rest ih =>
    rw [parseFrom]
    split
    · exact ih
    · simp

end Grammar

open Grammar

/-- A text parses to a tree exactly when its tokens lead to a state that ends in it. -/
theorem parse_iff {table : OperatorTable} {cs : List Char} {e : Expr} :
    parse table cs = .ok e ↔
      ∃ tokens final, Lexes cs tokens ∧ run table initial tokens = some final ∧
        final.finish = .ok e := by
  simp only [parse, tokensOf]
  constructor
  · intro ok
    cases ending : (Lexeme.streamFrom 0 0 cs).ending with
    | error error =>
      rw [ending] at ok
      exact absurd ok parseFrom_fault
    | ok stop =>
      rw [ending] at ok
      obtain ⟨final, steps, finished⟩ := parseFrom_ok.mp ok
      exact ⟨_, final, lexes_of_streamFrom ending, steps, finished⟩
  · rintro ⟨tokens, final, lexes, steps, finished⟩
    obtain ⟨read, ending⟩ := streamFrom_of_lexes lexes 0
    rw [ending]
    exact parseFrom_ok.mpr ⟨final, read ▸ steps, finished⟩

end PullQuery.Query
