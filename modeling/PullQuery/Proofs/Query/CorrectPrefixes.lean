import PullQuery.Proofs.Query.Cuts
import PullQuery.Proofs.Query.Written

/-! Where the parser stops. It stops at a token only if no text can go on with that token there, and
what stands in front of the token is the front of some query: whatever the parser holds can be
completed by an operand and the closing parentheses. -/
namespace PullQuery.Query
open PullQuery.Text Lexeme

theorem lexes_before {offset : Nat} {cs : List Char} {front back : List Lexeme} {lexeme : Lexeme}
    (read : (streamFrom offset 0 cs).lexemes = front ++ lexeme :: back)
    (lone : .not ∉ front.map (·.token)) :
    ∃ head tail, cs = head ++ tail ∧ lexeme.start = offset + head.length ∧
      Lexes head (front.map (·.token)) := by
  induction offset, cs using stream_induction generalizing front with
  | nil => simp [streamFrom] at read
  | @blank offset c rest blank ih =>
    rw [streamFrom_blank offset blank] at read
    obtain ⟨head, tail, rfl, start, lexes⟩ := ih read lone
    exact ⟨c :: head, tail, rfl, by simp [start]; omega, .blank blank lexes⟩
  | fault scanned failed => simp [failed] at read
  | @token offset source after token fronts ih =>
    rw [streamFrom_fronts offset fronts] at read
    cases front with
    | nil =>
      obtain ⟨rfl, -⟩ := List.cons.inj read
      exact ⟨[], source ++ after, rfl, rfl, .nil⟩
    | cons first front =>
      obtain ⟨rfl, behind⟩ := List.cons.inj read
      obtain ⟨other, later⟩ := not_or.mp (List.mem_cons.not.mp lone)
      obtain ⟨head, tail, rfl, start, lexes⟩ := ih behind later
      have alike : EndsAlike (head ++ tail) (head ++ []) := lexes.endsAlike (by simp [Breaks])
      rw [List.append_nil] at alike
      refine ⟨source ++ head, tail, by simp, by simp [start]; omega, ?_⟩
      exact .token (fronts.stable alike fun same => absurd same.symm other) lexes

namespace Grammar
variable {table : OperatorTable} {s : State} {tokens : List Token} {final : State}

theorem step?_not (table : OperatorTable) (s : State) : s.step? table .not = none := by
  have starts (s : State) : s.start? table .not = none := rfl
  unfold State.step?
  cases s.operand with
  | none => exact starts s
  | some operand => exact starts ⟨s.groups, reduceAll s.pending operand.expr :: s.parts, [], none⟩

private theorem not_mem_of_run (steps : run table s tokens = some final) : .not ∉ tokens := by
  induction tokens generalizing s with
  | nil => simp
  | cons token rest ih =>
    obtain ⟨next, step, behind⟩ := Option.bind_eq_some_iff.mp steps
    rintro (_ | ⟨_, later⟩)
    · simp [step?_not] at step
    · exact ih behind later

def State.completion (s : State) : List Token :=
  (if s.operand.isNone then [.null] else []) ++ List.replicate s.groups.length .closeParen

private def State.completionText (s : State) : List Char :=
  ' ' :: ((if s.operand.isNone then ['n', 'u', 'l', 'l'] else []) ++
    List.replicate s.groups.length ')')

private theorem run_closeParens {groups : List Group} {operand : Operand}
    (stands : s.operand = some operand) (inside : s.groups = groups) :
    ∃ final e, run table s (List.replicate groups.length .closeParen) = some final ∧
      final.finish = .ok e := by
  induction groups generalizing s operand with
  | nil => exact ⟨s, s.run operand.expr, rfl, by simp [State.finish, stands, inside]⟩
  | cons group outer ih =>
    have step : s.step? table .closeParen =
        some (.closed group outer (s.run operand.expr :: group.items).reverse) := by
      simp [State.step?, stands, State.continue?, inside]
    obtain ⟨final, e, steps, finished⟩ := @ih
      (.closed group outer (s.run operand.expr :: group.items).reverse) _ rfl rfl
    exact ⟨final, e, by simpa [List.replicate_succ, step] using steps, finished⟩

/-- Whatever the parser holds is the front of a query. -/
theorem run_completion (table : OperatorTable) (s : State) :
    ∃ final e, run table s s.completion = some final ∧ final.finish = .ok e := by
  unfold State.completion
  cases stands : s.operand with
  | some operand => exact run_closeParens stands rfl
  | none =>
    have step : s.step? table .null = some { s with operand := some (.value .null) } := by
      rw [State.step?, stands]
      rfl
    obtain ⟨final, e, steps, finished⟩ := @run_closeParens table
      { s with operand := some (.value .null) } _ _ rfl rfl
    exact ⟨final, e, by simpa [step] using steps, finished⟩

private theorem lexes_closeParens (depth : Nat) :
    Delimited (List.replicate depth ')') ∧
      Lexes (List.replicate depth ')') (List.replicate depth .closeParen) := by
  induction depth with
  | zero => exact ⟨by simp [Delimited], .nil⟩
  | succ depth ih => exact ⟨delimited_cons (by simp) _, lexes_closeParen ih.2⟩

private theorem lexes_completion (s : State) : Lexes s.completionText s.completion := by
  obtain ⟨delimited, closing⟩ := lexes_closeParens s.groups.length
  unfold State.completionText State.completion
  refine lexes_space ?_
  split
  · exact spells_null _ _ delimited closing
  · exact closing

/-- The parser stops at the end of the tokens, or at the first token for which it has no step. -/
theorem parseFrom_error {ending : Except LexError Nat} {lexemes : List Lexeme} {error : ParseError}
    (failed : parseFrom table ending s lexemes = .error error) :
    (∃ final, run table s (lexemes.map (·.token)) = some final ∧
      ((∃ fault, ending = .error fault ∧ error = .ofLexError fault) ∨
        ∃ stop fault, ending = .ok stop ∧ final.finish = .error fault ∧ error = ⟨fault, stop⟩)) ∨
    ∃ front lexeme back mid, lexemes = front ++ lexeme :: back ∧
      run table s (front.map (·.token)) = some mid ∧ mid.step? table lexeme.token = none ∧
        error = ⟨.unexpected lexeme.token, lexeme.start⟩ := by
  induction lexemes generalizing s with
  | nil =>
    refine .inl ⟨s, rfl, ?_⟩
    cases ending with
    | error fault => exact .inl ⟨fault, rfl, (Except.error.inj failed).symm⟩
    | ok stop =>
      cases finished : s.finish with
      | ok e => simp [parseFrom, finished, Except.mapError] at failed
      | error fault =>
        refine .inr ⟨stop, fault, rfl, rfl, ?_⟩
        simpa [parseFrom, finished, Except.mapError, eq_comm] using failed
  | cons lexeme rest ih =>
    rw [parseFrom] at failed
    cases step : s.step? table lexeme.token with
    | none =>
      rw [step] at failed
      exact .inr ⟨[], lexeme, rest, s, rfl, rfl, step, (Except.error.inj failed).symm⟩
    | some next =>
      rw [step] at failed
      rcases ih failed with ⟨final, steps, ends⟩ | ⟨front, wrong, back, mid, rfl, steps, none, same⟩
      · exact .inl ⟨final, by simpa [step] using steps, ends⟩
      · exact .inr ⟨lexeme :: front, wrong, back, mid, rfl, by simpa [step] using steps, none, same⟩

private theorem parseFrom_stuck {ending : Except LexError Nat} {front back : List Lexeme}
    {lexeme : Lexeme} {mid : State} (steps : run table s (front.map (·.token)) = some mid)
    (stuck : mid.step? table lexeme.token = none) :
    parseFrom table ending s (front ++ lexeme :: back) =
      .error ⟨.unexpected lexeme.token, lexeme.start⟩ := by
  induction front generalizing s with
  | nil =>
    obtain rfl := Option.some.inj steps
    simp [parseFrom, stuck]
  | cons first front ih =>
    obtain ⟨next, step, behind⟩ := Option.bind_eq_some_iff.mp steps
    rw [List.cons_append, parseFrom, step]
    exact ih behind

theorem parse_stuck {cs : List Char} {front back : List Lexeme} {lexeme : Lexeme} {mid : State}
    (split : (tokensOf cs).lexemes = front ++ lexeme :: back)
    (steps : run table initial (front.map (·.token)) = some mid)
    (stuck : mid.step? table lexeme.token = none) :
    parse table cs = .error ⟨.unexpected lexeme.token, lexeme.start⟩ := by
  have stops : parseFrom table (tokensOf cs).ending initial (front ++ lexeme :: back) = _ :=
    parseFrom_stuck steps stuck
  rwa [← split] at stops

theorem parse_completed {cs : List Char} (lexes : Lexes cs tokens)
    (steps : run table initial tokens = some final) :
    ∃ tail e, parse table (cs ++ tail) = .ok e := by
  obtain ⟨last, e, more, finished⟩ := run_completion table final
  have breaks : Breaks final.completionText := (delimited_cons (by simp) _).breaks
  have other : final.completion.head? ≠ some .isIn := by
    cases stands : final.operand <;> cases inside : final.groups <;>
      simp [State.completion, stands, inside, List.replicate_succ]
  have whole := lexes.append breaks (lexes_completion final) other
  refine ⟨final.completionText, e, parse_iff.mpr ⟨_, last, whole, ?_, finished⟩⟩
  rw [run_append, steps]
  exact more

private theorem finish_error {fault : ParseFault} (finished : s.finish = .error fault) :
    fault = .unexpectedEnd ∨ fault = .unclosed := by
  unfold State.finish at finished
  split at finished
  · simp at finished
  · exact .inr (Except.error.inj finished).symm
  · split at finished
    · simp at finished
    · exact .inl (Except.error.inj finished).symm

end Grammar

open Grammar

def tokensIn (cs : List Char) : List Token := (tokensOf cs).lexemes.map (·.token)

/-- The parser blames the first token that cannot stand where it does, or else the end. What stands
in front of it is the front of a query, and no text that begins with the same tokens is a query. -/
theorem parse_blames_first_wrong_token {table : OperatorTable} {cs : List Char} {fault : ParseFault}
    {offset : Nat} (failed : parse table cs = .error ⟨fault, offset⟩)
    (readable : ∀ lexical, fault ≠ .lexical lexical) :
    (∃ tail e, parse table (cs.take offset ++ tail) = .ok e) ∧
      ((offset = cs.length ∧ (fault = .unexpectedEnd ∨ fault = .unclosed) ∧
          tokenize cs = .ok (tokensIn cs)) ∨
        ∃ (k : Nat) (lexeme : Lexeme), (tokensOf cs).lexemes[k]? = some lexeme ∧
          offset = lexeme.start ∧ fault = .unexpected lexeme.token ∧
          ∀ other, (tokensIn other).take (k + 1) = (tokensIn cs).take (k + 1) →
            ∃ own, (tokensOf other).lexemes[k]? = some own ∧
              parse table other = .error ⟨fault, own.start⟩) := by
  rcases parseFrom_error failed with
    ⟨final, steps, ⟨error, -, same⟩ | ⟨stop, ended, ending, finished, same⟩⟩ |
      ⟨front, lexeme, back, mid, split, steps, stuck, same⟩
  · obtain ⟨rfl, -⟩ := ParseError.mk.inj same
    exact absurd rfl (readable _)
  · obtain ⟨rfl, rfl⟩ := ParseError.mk.inj same
    have lexes : Lexes cs (tokensIn cs) := lexes_of_streamFrom ending
    obtain rfl : cs.length = offset := by
      have all := (streamFrom_of_lexes lexes 0).2.symm.trans ending
      simpa using all
    refine ⟨?_, .inl ⟨rfl, finish_error finished, tokenize_iff.mpr lexes⟩⟩
    rw [List.take_length]
    exact parse_completed lexes steps
  · obtain ⟨rfl, rfl⟩ := ParseError.mk.inj same
    obtain ⟨head, tail, text, start, lexes⟩ := lexes_before split (not_mem_of_run steps)
    constructor
    · have before : cs.take lexeme.start = head := by simp [text, start]
      exact before ▸ parse_completed lexes steps
    · refine .inr ⟨front.length, lexeme, by simp [split], rfl, rfl, fun other alike => ?_⟩
      have begins : (tokensIn other).take (front.length + 1) =
          front.map (·.token) ++ [lexeme.token] := by
        rw [alike, tokensIn, split, List.map_append, List.map_cons, List.append_cons]
        exact List.take_left' (by simp)
      have whole : (tokensOf other).lexemes.map (·.token) =
          front.map (·.token) ++ lexeme.token :: (tokensIn other).drop (front.length + 1) := by
        have joined := List.take_append_drop (front.length + 1) (tokensIn other)
        rw [begins] at joined
        simpa [tokensIn] using joined.symm
      obtain ⟨first, later, divided, firsts, laters⟩ := List.map_eq_append_iff.mp whole
      obtain ⟨own, rest, rfl, named, -⟩ := List.map_eq_cons_iff.mp laters
      have place : first.length = front.length := by simpa using congrArg List.length firsts
      refine ⟨own, by simp [divided, ← place], ?_⟩
      rw [← named] at stuck ⊢
      exact parse_stuck divided (firsts ▸ steps) stuck

theorem parse_blames_first_wrong_token_nested :
    let cs := "count(a, (b = ) c".toList
    (parse .standard cs = .error ⟨.unexpected .closeParen, 14⟩ ∧
        ∀ lexical, ParseFault.unexpected .closeParen ≠ .lexical lexical) ∧
      (∃ tail e, parse .standard (cs.take 14 ++ tail) = .ok e) ∧
        ∀ other, (tokensIn other).take 8 = (tokensIn cs).take 8 →
          ∃ own, (tokensOf other).lexemes[7]? = some own ∧
            parse .standard other = .error ⟨.unexpected .closeParen, own.start⟩ := by
  intro cs
  have failed : parse .standard cs = .error ⟨.unexpected .closeParen, 14⟩ := rfl
  have readable (lexical : LexFault) : ParseFault.unexpected .closeParen ≠ .lexical lexical := by simp
  obtain ⟨completes, ⟨-, ends, -⟩ | ⟨k, lexeme, found, start, -, others⟩⟩ :=
    parse_blames_first_wrong_token failed readable
  · simp at ends
  · have starts : (tokensOf cs).lexemes.map (·.start) = [0, 5, 6, 7, 9, 10, 12, 14, 16] := rfl
    have placed : [0, 5, 6, 7, 9, 10, 12, 14, 16][k]? = some 14 := by
      rw [← starts, List.getElem?_map, found, start, Option.map_some]
    have once : ∀ k < 9, [0, 5, 6, 7, 9, 10, 12, 14, 16][k]? = some 14 → k = 7 := by decide
    obtain rfl := once k (List.getElem?_eq_some_iff.mp placed).1 placed
    exact ⟨⟨failed, readable⟩, completes, others⟩

end PullQuery.Query
