import PullQuery.Proofs.Query.DurationTokens
import PullQuery.Proofs.Query.Selecting
import PullQuery.Proofs.Query.TextComparisons

/-! Queries for records younger or older than a distance from now, such as `createdAt >= -7d`. The
distance is exact to the second, whatever unit it is written in, and a time that the calendar does not
reach selects nothing. -/
namespace PullQuery

namespace Time.Instant

private theorem shift?_ordinary {t : Instant} (ordinary : t.nanos < 1000000000) (seconds : Int) :
    t.addSeconds? seconds = make? (t.seconds + seconds) t.nanos := by
  have low : ¬ (t.nanos : Int) + 0 < 0 := by omega
  have high : ¬ 1000000000 ≤ (t.nanos : Int) + 0 := by omega
  rw [addSeconds?, shift?, if_pos ordinary, carry?, if_neg low, if_neg high]
  simp

theorem addSeconds?_eq_some {t bound : Instant} (ordinary : t.nanos < 1000000000) {seconds : Int} :
    t.addSeconds? seconds = some bound ↔
      bound.seconds = t.seconds + seconds ∧ bound.nanos = t.nanos := by
  obtain ⟨_, _, inside, small, ends⟩ := bound
  rw [shift?_ordinary ordinary, make?]
  constructor
  · intro made
    split at made
    · obtain ⟨rfl, rfl⟩ := Instant.mk.inj (Option.some.inj made)
      exact ⟨rfl, rfl⟩
    · simp at made
  · intro parts
    obtain ⟨rfl, rfl⟩ : _ = t.seconds + seconds ∧ _ = t.nanos := parts
    rw [dif_pos ⟨inside, small, ends⟩]

end Time.Instant

namespace Query
open Number Text Grammar

inductive TimeOrder where
  | before
  | upTo
  | after
  | since
  deriving DecidableEq, Repr

namespace TimeOrder

def op : TimeOrder → BinaryOp
  | before => .less
  | upTo => .lessEqual
  | after => .greater
  | since => .greaterEqual

def holds : TimeOrder → Time.Instant → Time.Instant → Bool
  | before, t, bound => t < bound
  | upTo, t, bound => t ≤ bound
  | after, t, bound => bound < t
  | since, t, bound => bound ≤ t

end TimeOrder

/-- The fields that every record has a time for. -/
inductive Dated : Field → (PullRequest → Time.Instant) → Prop
  | createdAt : Dated .createdAt PullRequest.createdAt
  | updatedAt : Dated .updatedAt PullRequest.updatedAt

/-- A distance in whole units, with a sign if it lies in the past. -/
def distanceText (past : Bool) (digits unit : List Char) : List Char :=
  (if past then ['-'] else []) ++ (digits ++ unit)

def timeQuery (field : Field) (order : TimeOrder) (past : Bool) (digits unit : List Char) : String :=
  String.ofList (field.name.toList ++ ' ' :: (order.op.spelling ++
    ' ' :: distanceText past digits unit))

def distance (past : Bool) (seconds : Nat) : Int := if past then -seconds else seconds

section Reading
variable {digits word : List Char} (some : digits ≠ []) (all : ∀ c ∈ digits, c.isDigit = true)
  {unit : TimeUnit} (spelled : TimeUnit.ofSpelling? word = .some unit)
include some all spelled

private theorem scan?_distanceText (past : Bool) :
    Duration.scan? (distanceText past digits word) =
      .some (⟨past, digits, none, unit⟩, (distanceText past digits word).length) := by
  have isWritten : Duration.IsWritten ⟨past, digits, none, unit⟩ word :=
    ⟨some, fun c member => isDecimal_of_isDigit (all c member), by simp, spelled⟩
  have text : distanceText past digits word = Duration.written ⟨past, digits, none, unit⟩ word := by
    simp [distanceText, Duration.written, Duration.sign, Duration.amount]
  have read := @Duration.IsWritten.scan? _ _ isWritten [] (by simp [StopsRun])
  rwa [List.append_nil, ← text] at read

end Reading

theorem magnitude?_whole {digits : List Char} (all : ∀ c ∈ digits, c.isDigit = true) {unit : TimeUnit}
    (fits : digitsValue digits * unit.seconds < 0x8000000000000000) (past : Bool) :
    Duration.magnitude? ⟨past, digits, none, unit⟩ = some (digitsValue digits * unit.seconds) := by
  have digital : digits.all Char.isDigit = true := List.all_eq_true.mpr all
  simp [Duration.magnitude?, digital, fits]

theorem exists_offset {table : OperatorTable} (minus : UnaryOp.negate ∈ table.unary) {d : Duration}
    {n : Int64} (size : d.magnitude? = some n.toInt.toNat) (nonnegative : 0 ≤ n.toInt) :
    ∃ e m, Yields table none e (if d.dropsSign then [.integer n] else d.tokens n) ∧
      (∀ context, asOperand e (eval context e) = .ok (.integer m)) ∧
      m.toInt = distance d.negative n.toInt.toNat := by
  have plain : Yields table none (.integer n) [.integer n] :=
    @Yields.leaf _ _ (.value (.integer n)) (fun _ => rfl) (by simp)
  have value : (n.toInt.toNat : Int) = n.toInt := Int.toNat_of_nonneg nonnegative
  cases sign : d.negative with
  | false =>
    refine ⟨.integer n, n, ?_, fun _ => rfl, by simp only [distance, value]; rfl⟩
    simpa [Duration.dropsSign, Duration.tokens, sign] using plain
  | true =>
    by_cases zero : n.toInt = 0
    · -- No seconds lose their sign, and are the same distance without it.
      have drops : d.dropsSign = true := by simp [Duration.dropsSign, sign, size, zero]
      refine ⟨.integer n, n, by simpa [drops] using plain, fun _ => rfl, ?_⟩
      simp [distance, zero]
    · have keeps : d.dropsSign = false := by
        have some : n.toInt.toNat ≠ 0 := by omega
        simp [Duration.dropsSign, size, some, -Int64.toNat_toInt]
      have high := n.toInt_lt
      have opposite : word? (-n.toInt) = some (Int64.ofInt (-n.toInt)) := by
        rw [word?, if_pos (by omega)]
      refine ⟨.unary .negate (.integer n), Int64.ofInt (-n.toInt), ?_, ?_, ?_⟩
      · simpa [keeps, Duration.tokens, sign, UnaryOp.token] using plain.unary minus
      · intro context
        have negated : unaryValue .negate (.integer n) = .integer (Int64.ofInt (-n.toInt)) := by
          rw [unaryValue, wordValue, opposite]
          rfl
        exact congrArg Except.ok negated
      · rw [toInt_of_word? opposite, distance, if_pos rfl, value]

/-- A field of time is compared with the instant at a distance, if there is one. -/
theorem eval_order {context : Context} {field : Field} {date : PullRequest → Time.Instant}
    (dated : Dated field date) (order : TimeOrder) {e : Expr} {m : Int64}
    (offset : asOperand e (eval context e) = .ok (.integer m)) :
    eval context (.binary order.op (.name field.name) e) =
      .ok (.boolean ((context.now.addSeconds? m.toInt).any (order.holds (date context.record)))) := by
  have left : eval context (.name field.name) = .ok (.instant (date context.record)) := by
    cases dated <;> rfl
  have compared : comparison context.now order.op (.instant (date context.record)) (.integer m) =
      (context.now.addSeconds? m.toInt).any (order.holds (date context.record)) := by
    have meant : (Value.integer m).instant? context.now = context.now.addSeconds? m.toInt := rfl
    have own : (Value.instant (date context.record)).instant? context.now =
        some (date context.record) := rfl
    cases order <;> simp only [TimeOrder.op, comparison, ordered, meant, own] <;>
      cases context.now.addSeconds? m.toInt <;> rfl
  rw [eval_binary, left, ← compared]
  cases order <;> simp only [TimeOrder.op, BinaryOp.compares, if_true, offset] <;> rfl

private theorem tokenize_order {field : Field} {date : PullRequest → Time.Instant}
    (dated : Dated field date) (order : TimeOrder) :
    tokenize (durationsInSeconds (field.name.toList ++ ' ' :: order.op.spelling)) =
      .ok [.name field.name, order.op.token] := by
  cases dated <;> cases order <;> decide

private theorem Grammar.Fills.parse {table : OperatorTable} {cs : List Char} {tokens : List Token}
    {e : Expr}
    (fills : Fills table [] e tokens) (read : tokenize cs = .ok tokens) : parse table cs = .ok e := by
  obtain ⟨s, operand, steps, outermost, found, whole⟩ := fills []
  refine parse_iff.mpr ⟨tokens, s, tokenize_iff.mp read, steps, ?_⟩
  simp [State.finish, found, outermost, whole]

/-- A query for times before or after a distance from now selects exactly the records whose time is in
that order with the instant so many units away, and none where the calendar has no such instant. -/
theorem selects_by_relative_time (field : Field) (date : PullRequest → Time.Instant)
    (dated : Dated field date) (order : TimeOrder) (past : Bool) (digits word : List Char)
    (some : digits ≠ []) (all : ∀ c ∈ digits, c.isDigit = true) (unit : TimeUnit)
    (spelled : TimeUnit.ofSpelling? word = .some unit)
    (fits : digitsValue digits * unit.seconds < 0x8000000000000000) (now : Time.Instant)
    (records : List PullRequest) :
    let offset := distance past (digitsValue digits * unit.seconds)
    Filter.run .standard [] now records (.query (timeQuery field order past digits word)) =
        .ok (records.filter fun pr => (now.addSeconds? offset).any (order.holds (date pr))) ∧
      (now.nanos < 1000000000 → ∀ bound, now.addSeconds? offset = .some bound ↔
        bound.seconds = now.seconds + offset ∧ bound.nanos = now.nanos) := by
  intro offset
  refine ⟨?_, fun ordinary bound => Time.Instant.addSeconds?_eq_some ordinary⟩
  have scanned := scan?_distanceText some all spelled past
  have magnitude := magnitude?_whole all fits past
  have length : Duration.seconds? ⟨past, digits, none, unit⟩ = .some offset := by
    rw [Duration.seconds?, magnitude]
    rfl
  obtain ⟨n, ⟨nonnegative, size⟩, read⟩ :=
    tokenize_durationsInSeconds_spaced (tokenize_order dated order) scanned length
  obtain ⟨e, m, yields, value, meant⟩ :=
    @exists_offset .standard (.head _) _ _ size nonnegative
  have same : m.toInt = offset := by
    rw [meant, ← Option.some.inj (magnitude.symm.trans size)]
  have left : Yields .standard none (.name field.name) [.name field.name] :=
    @Yields.leaf _ _ (.name field.name) (fun _ => rfl) (by simp)
  have known : OperatorTable.standard.precedence order.op = .some 4 := by cases order <;> rfl
  have whole := (left.binary known (by simp) yields (by simp)).fills
  have text : (timeQuery field order past digits word).toList =
      field.name.toList ++ ' ' :: order.op.spelling ++ ' ' :: distanceText past digits word := by
    simp [timeQuery]
  have parsed : parse .standard (expand [] (timeQuery field order past digits word).toList) =
      .ok (.binary order.op (.name field.name) e) := by
    rw [text]
    exact whole.parse read
  refine run_truth parsed fun pr _ => ?_
  rw [eval_order dated order (value ⟨pr, now⟩), same]

theorem selects_by_relative_time_months :
    (timeQuery .updatedAt .upTo true ['0', '2'] ['m', 'o'] = "updatedAt <= -02mo" ∧
      digitsValue ['0', '2'] = 2 ∧ TimeUnit.ofSpelling? ['m', 'o'] = some .month ∧
      2 * TimeUnit.month.seconds < 0x8000000000000000) ∧
    Filter.run .standard [] ⟨5184000, 0, by decide, by decide, by decide⟩ [.sample]
      (.query (timeQuery .updatedAt .upTo true ['0', '2'] ['m', 'o'])) = .ok [.sample] ∧
    Filter.run .standard [] .epoch [.sample]
      (.query (timeQuery .createdAt .before false ['9', '9', '9', '9', '9', '9'] ['y'])) = .ok [] := by
  have months := selects_by_relative_time .updatedAt _ .updatedAt .upTo true ['0', '2'] ['m', 'o']
    (by simp) (by simp) .month rfl (by decide) ⟨5184000, 0, by decide, by decide, by decide⟩ [.sample]
  have far := selects_by_relative_time .createdAt _ .createdAt .before false
    ['9', '9', '9', '9', '9', '9'] ['y'] (by simp) (by simp) .year rfl (by decide) .epoch [.sample]
  exact ⟨⟨rfl, rfl, rfl, by decide⟩, months.1.trans (congrArg _ (by decide +kernel)),
    far.1.trans (congrArg _ (by decide +kernel))⟩

end Query
end PullQuery
