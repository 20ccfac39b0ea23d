import PullQuery.Proofs.Query.Conversions
import PullQuery.Proofs.Query.Cuts
import PullQuery.Proofs.Query.LiteralTokens
import PullQuery.Proofs.Query.Operands

/-! The sign of a duration. What stands for a duration with a sign is a minus and an integer, so that
behind an operand it is subtracted from it; only the sign of no seconds is lost, and what was to be
subtracted then stands beside the operand. -/
namespace PullQuery.Query
open PullQuery.Number PullQuery.Text QuoteState Lexeme Grammar

theorem Lexes.closed {cs : List Char} {tokens : List Token} (lexes : Lexes cs tokens) :
    outside.after cs = outside := by
  induction lexes with
  | nil => rfl
  | blank blank lexes ih => rw [after_cons, next_plain (isQuote_of_isBlank blank), ih]
  | token fronts lexes ih => rw [after_append, (fronts.spansFrom 0 0).1, ih]

private theorem Lexes.spaced {cs rest : List Char} {tokens others : List Token}
    (first : Lexes cs tokens) (second : Lexes rest others) (other : others.head? ≠ some .isIn) :
    Lexes (cs ++ ' ' :: rest) (tokens ++ others) :=
  first.append (delimited_cons (by simp) rest).breaks (lexes_space second) other

theorem after_replaceFrom_durationRule (before cs : List Char) :
    (outside.after before.reverse).after (replaceFrom durationRule before 0 cs) =
      (outside.after before.reverse).after cs := by
  induction before, cs using durations_induction with
  | nil => rfl
  | keep before c cs passed behind =>
    rw [after_reverse_cons] at behind
    rw [replaceFrom_keep passed]
    exact behind
  | piece before source left text some picked same behind =>
    rw [after_reverse_append] at behind
    rw [replaceFrom_piece some picked, after_append, same, behind, after_append]

theorem durationRule_fits (before cs : List Char) (piece : Replacement)
    (picked : durationRule before cs = some piece) : piece.width ≤ cs.length := by
  obtain none | ⟨source, left, text, rfl, -, found, -⟩ := durationRule_cases before cs
  · simp [none] at picked
  · obtain rfl := Option.some.inj (found.symm.trans picked)
    simp

section Append
variable {cs rest : List Char} (ends : EndsDuration rest) (plain : ∀ c ∈ rest.head?, isQuote c = false)
include ends plain

theorem durationRule_append (before : List Char) (some : cs ≠ []) :
    durationRule before (cs ++ rest) = durationRule before cs := by
  have scanned := Duration.scan?_front some ends
  cases found : Duration.scan? cs with
  | none => simp [durationRule, scanned, found]
  | some front =>
    obtain ⟨source, left, rfl, -, width, -⟩ := scan?_split found
    have same : startsWithQuote (left ++ rest) = startsWithQuote left := by
      rw [startsWithQuote_eq, startsWithQuote_eq, List.head?_append]
      cases left with
      | nil => cases first : rest.head? <;> simp_all
      | cons c left => rfl
    rw [found, List.append_assoc] at scanned
    simp only [durationRule, found, scanned, Option.bind_eq_bind, Option.bind_some, ← width,
      List.append_assoc, List.drop_left, List.take_left, same]

/-- The durations in front of what ends a duration are rewritten as they are alone. -/
theorem replaceFrom_durationRule_append (before : List Char) :
    replaceFrom durationRule before 0 (cs ++ rest) =
      replaceFrom durationRule before 0 cs ++
        replaceFrom durationRule (cs.reverse ++ before) 0 rest := by
  apply replaceFrom_append durationRule_fits _ (Nat.zero_le _)
  intro front back _ some
  exact durationRule_append ends plain _ some

end Append

private theorem durationsInSeconds_spaced {cs source : List Char}
    (closed : outside.after cs = outside)
    {d : Duration} {seconds : Int} (scanned : Duration.scan? source = some (d, source.length))
    (length : d.seconds? = some seconds) :
    durationsInSeconds (cs ++ ' ' :: source) = durationsInSeconds cs ++ ' ' :: intDigits seconds := by
  have ends : EndsDuration (' ' :: source) := by
    intro c first
    obtain rfl : ' ' = c := by simpa using first
    decide
  have plain : ∀ c ∈ (' ' :: source).head?, isQuote c = false := by simp [isQuote]
  have blank : durationRule cs.reverse (' ' :: source) = none := by
    have none : Duration.scan? (' ' :: source) = none :=
      Duration.scan?_plain (by simp) fun c first => (ends c first).1
    simp [durationRule, none]
  have outer : outside.after (' ' :: cs.reverse).reverse = outside := by
    rw [List.reverse_cons, List.reverse_reverse, after_append, closed]
    rfl
  have follows : mayFollow (' ' :: cs.reverse) = true := by
    have harmless : mayFollow [' '] = true := by decide
    exact harmless
  have found : conversionAt? ⟨' ' :: cs.reverse, source⟩ = some ⟨d, source.length, seconds⟩ :=
    conversionAt?_eq_some.mpr ⟨scanned, length, outer, follows, by simp [startsWithQuote]⟩
  have some : source ≠ [] := by
    rintro rfl
    simp [Duration.scan?, Duration.unsigned] at scanned
  have picked := durationRule_converted found
  have last : replaceFrom durationRule (' ' :: cs.reverse) 0 source = intDigits seconds := by
    rw [← List.append_nil source] at picked ⊢
    rw [replaceFrom_piece some (by simpa using picked), replaceFrom, List.append_nil]
  rw [durationsInSeconds, replacePieces, replaceFrom_durationRule_append ends plain,
    List.append_nil, replaceFrom_keep blank, last]
  rfl

/-- The state in which an integer is to be subtracted from the operand at hand, where a difference
binds with the precedence. -/
def Grammar.State.minus (s : State) (precedence : Nat) (operand : Operand) (n : Int64) : State :=
  let (pending, left) := reduce precedence s.pending operand.expr
  ⟨s.groups, s.parts, .binary left .subtract precedence :: pending, some (.value (.integer n))⟩

private theorem run_minus {table : OperatorTable} {precedence : Nat}
    (known : table.precedence .subtract = some precedence) {s : State} {operand : Operand}
    (stands : s.operand = some operand) (n : Int64) :
    run table s [.minus, .integer n] = some (s.minus precedence operand n) := by
  have found : table.binary? .minus = some (.subtract, precedence) := by
    simp [OperatorTable.binary?, BinaryOp.ofToken?, known]
  rcases reduced : reduce precedence s.pending operand.expr with ⟨pending, left⟩
  have first : s.step? table .minus =
      some ⟨s.groups, s.parts, .binary left .subtract precedence :: pending, none⟩ := by
    simp only [State.step?, State.continue?, stands, found, reduced]
  have second : State.step? table
      ⟨s.groups, s.parts, .binary left .subtract precedence :: pending, none⟩ (.integer n) =
        some ⟨s.groups, s.parts, .binary left .subtract precedence :: pending,
          some (.value (.integer n))⟩ := by
    have apart : Token.integer n ≠ .closeParen := Token.noConfusion
    unfold State.step?
    exact if_neg apart
  rw [run_cons, first, Option.bind_some, run_cons, second, Option.bind_some, run_nil, State.minus,
    reduced]

private theorem tokenize_intDigits {d : Duration} {seconds : Int}
    (length : d.seconds? = some seconds) :
    ∃ n : Int64, (0 ≤ n.toInt ∧ d.magnitude? = some n.toInt.toNat) ∧
      tokenize (intDigits seconds) = .ok (if d.dropsSign then [.integer n] else d.tokens n) := by
  obtain ⟨n, size, lexes⟩ := @d.lexes_intDigits _ length [] [] (by simp [StopsRun]) rfl .nil
  rw [List.append_nil, List.append_nil] at lexes
  exact ⟨n, size, tokenize_iff.mpr lexes⟩

/-- Behind an operand and a blank a duration is read as an integer, behind a minus that takes the
operand unless the sign is dropped. -/
theorem tokenize_durationsInSeconds_spaced {cs source : List Char} {tokens : List Token}
    (read : tokenize (durationsInSeconds cs) = .ok tokens) {d : Duration} {seconds : Int}
    (scanned : Duration.scan? source = some (d, source.length))
    (length : d.seconds? = some seconds) :
    ∃ n : Int64, (0 ≤ n.toInt ∧ d.magnitude? = some n.toInt.toNat) ∧
      tokenize (durationsInSeconds (cs ++ ' ' :: source)) =
        .ok (tokens ++ if d.dropsSign then [.integer n] else d.tokens n) := by
  obtain ⟨n, size, second⟩ := tokenize_intDigits length
  have first := tokenize_iff.mp read
  have closed : outside.after cs = outside := by
    have same : outside.after (durationsInSeconds cs) = outside.after cs :=
      after_replaceFrom_durationRule [] cs
    rw [← same, first.closed]
  refine ⟨n, size, ?_⟩
  rw [durationsInSeconds_spaced closed scanned length]
  refine tokenize_iff.mpr (first.spaced (tokenize_iff.mp second) ?_)
  unfold Duration.tokens
  split_ifs <;> simp

/-- The seconds of a duration are written for it wherever it is converted. They are read as an integer
behind the sign of the duration, and behind an operand they are subtracted from it, exactly when the
duration is not one of no seconds with a sign. -/
theorem keeps_sign_iff {d : Duration} {seconds : Int} (length : d.seconds? = some seconds) :
    (∀ (cs : List Char) (place : Place) (width : Nat), place ∈ placesFrom durationRule [] 0 cs →
      conversionAt? place = some ⟨d, width, seconds⟩ →
        ∃ front, durationsInSeconds cs = front ++ (intDigits seconds ++
          replaceFrom durationRule ((place.behind.take width).reverse ++ place.before) 0
            (place.behind.drop width))) ∧
    ((∃ n, tokenize (intDigits seconds) = .ok (d.tokens n)) ↔ d.dropsSign = false) ∧
    ∀ (table : OperatorTable) (precedence : Nat) (left : List Char) (tokens : List Token) (s : State)
      (operand : Operand) (source : List Char), table.precedence .subtract = some precedence →
      tokenize (durationsInSeconds left) = .ok tokens → run table initial tokens = some s →
      s.operand = some operand → Duration.scan? source = some (d, source.length) →
      d.negative = true →
        ∃ others, tokenize (durationsInSeconds (left ++ ' ' :: source)) = .ok others ∧
          ((∃ n, others = tokens ++ [.minus, .integer n] ∧
            run table initial others = some (s.minus precedence operand n) ∧
            (s.groups = [] → parse table (durationsInSeconds (left ++ ' ' :: source)) =
              .ok ((s.minus precedence operand n).run (.integer n)))) ↔
            d.dropsSign = false) := by
  refine ⟨?_, ?_, ?_⟩
  · intro cs place width visited found
    obtain ⟨front, text, -, -, written⟩ := exists_split_of_mem_placesFrom visited
    obtain ⟨source, rest, split, some, rfl, -⟩ := scan?_split (conversionAt?_eq_some.mp found).1
    have picked := durationRule_converted found
    rw [split] at picked
    refine ⟨text, ?_⟩
    rw [durationsInSeconds, replacePieces, written, split, replaceFrom_piece some picked,
      List.take_left, List.drop_left]
  · obtain ⟨n, -, read⟩ := tokenize_intDigits length
    rw [read]
    cases drops : d.dropsSign with
    | false => simp
    | true =>
      have sign : d.negative = true := by
        simp only [Duration.dropsSign, Bool.and_eq_true] at drops
        exact drops.1
      simp [Duration.tokens, sign]
  · intro table precedence left tokens s operand source known read steps stands scanned sign
    obtain ⟨n, -, others⟩ := tokenize_durationsInSeconds_spaced read scanned length
    refine ⟨_, others, ?_⟩
    cases drops : d.dropsSign with
    | true => simp
    | false =>
      have signed : d.tokens n = [.minus, .integer n] := by rw [Duration.tokens, if_pos sign]
      have final : run table initial (tokens ++ [.minus, .integer n]) =
          some (s.minus precedence operand n) := by
        rw [run_append, steps]
        exact run_minus known stands n
      rw [drops, if_neg Bool.false_ne_true, signed] at others
      simp only [if_neg Bool.false_ne_true, signed, iff_true]
      refine ⟨n, rfl, final, fun whole => ?_⟩
      refine parse_iff.mpr ⟨_, _, tokenize_iff.mp others, final, ?_⟩
      simp [State.finish, State.minus, whole]
      rfl

theorem keeps_sign_iff_week :
    Duration.seconds? ⟨true, ['7'], none, .day⟩ = some (-604800) ∧
      (⟨" > ega".toList, "-7d".toList⟩ ∈ placesFrom durationRule [] 0 "age > -7d".toList ∧
        conversionAt? ⟨" > ega".toList, "-7d".toList⟩ =
          some ⟨⟨true, ['7'], none, .day⟩, 3, -604800⟩ ∧
        ∃ front, durationsInSeconds "age > -7d".toList = front ++ (intDigits (-604800) ++
          replaceFrom durationRule (("-7d".toList.take 3).reverse ++ " > ega".toList) 0
            ("-7d".toList.drop 3))) ∧
      ((∃ n, tokenize (intDigits (-604800)) = .ok (Duration.tokens ⟨true, ['7'], none, .day⟩ n)) ↔
        Duration.dropsSign ⟨true, ['7'], none, .day⟩ = false) ∧
      OperatorTable.standard.precedence .subtract = some 5 ∧
      tokenize (durationsInSeconds "age > 2h".toList) = .ok [.name "age", .greater, .integer 7200] ∧
      run .standard initial [.name "age", .greater, .integer 7200] =
        some ⟨[], [], [.binary (.name "age") .greater 4], some (.value (.integer 7200))⟩ ∧
      ∃ others, tokenize (durationsInSeconds ("age > 2h".toList ++ ' ' :: "-7d".toList)) = .ok others ∧
        ((∃ n, others = [.name "age", .greater, .integer 7200] ++ [.minus, .integer n] ∧
          run .standard initial others = some (State.minus
            ⟨[], [], [.binary (.name "age") .greater 4], some (.value (.integer 7200))⟩ 5
            (.value (.integer 7200)) n) ∧
          (([] : List Group) = [] →
            parse .standard (durationsInSeconds ("age > 2h".toList ++ ' ' :: "-7d".toList)) =
              .ok ((State.minus
                ⟨[], [], [.binary (.name "age") .greater 4], some (.value (.integer 7200))⟩ 5
                (.value (.integer 7200)) n).run (.integer n)))) ↔
          Duration.dropsSign ⟨true, ['7'], none, .day⟩ = false) := by
  have length : Duration.seconds? ⟨true, ['7'], none, .day⟩ = some (-604800) := by decide +kernel
  have visited : ⟨" > ega".toList, "-7d".toList⟩ ∈
      placesFrom durationRule [] 0 "age > -7d".toList := by decide +kernel
  have found : conversionAt? ⟨" > ega".toList, "-7d".toList⟩ =
      some ⟨⟨true, ['7'], none, .day⟩, 3, -604800⟩ := rfl
  have read : tokenize (durationsInSeconds "age > 2h".toList) =
      .ok [.name "age", .greater, .integer 7200] := by decide +kernel
  have steps : run .standard initial [.name "age", .greater, .integer 7200] =
      some ⟨[], [], [.binary (.name "age") .greater 4], some (.value (.integer 7200))⟩ := rfl
  obtain ⟨written, tokens, subtracted⟩ := keeps_sign_iff length
  exact ⟨length, ⟨visited, found, written _ _ _ visited found⟩, tokens, rfl, read, steps,
    subtracted _ _ _ _ _ _ "-7d".toList rfl read steps rfl rfl rfl⟩

/-- The sign of no days is lost, and no subtraction is left. -/
theorem drops_sign_of_zero_days :
    ⟨" x".toList, "-0d".toList⟩ ∈ placesFrom durationRule [] 0 "x -0d".toList ∧
      conversionAt? ⟨" x".toList, "-0d".toList⟩ = some ⟨⟨true, ['0'], none, .day⟩, 3, 0⟩ ∧
      (∀ n, tokenize (intDigits 0) ≠ .ok [.minus, .integer n]) ∧
      tokenize (durationsInSeconds "x -0d".toList) = .ok [.name "x", .integer 0] ∧
      parse .standard (durationsInSeconds "x -0d".toList) = .ok (.all [.name "x", .integer 0]) := by
  have read : tokenize (intDigits 0) = .ok [.integer 0] := by decide +kernel
  have found : conversionAt? ⟨" x".toList, "-0d".toList⟩ =
      some ⟨⟨true, ['0'], none, .day⟩, 3, 0⟩ :=
    conversionAt?_eq_some.mpr ⟨rfl, by decide +kernel, rfl, by decide +kernel, rfl⟩
  exact ⟨by decide +kernel, found, by simp [read], by decide +kernel, rfl⟩

end PullQuery.Query
