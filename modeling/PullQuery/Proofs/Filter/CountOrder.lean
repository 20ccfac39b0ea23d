import PullQuery.Proofs.Filter.RelativeTimes
import PullQuery.Proofs.Query.IntegerSums
import PullQuery.Proofs.Query.Rereading
import PullQuery.Proofs.Time.Shifting

/-! Queries that compare a count with a number, such as `comments > 10`. Both are taken for seconds from
now, and the instants they mean are in the order of the numbers, whenever the calendar has them. -/
namespace PullQuery.Query
open Number Text Grammar

namespace TimeOrder

def onIntegers : TimeOrder → Int → Int → Bool
  | before, m, n => m < n
  | upTo, m, n => m ≤ n
  | after, m, n => n < m
  | since, m, n => n ≤ m

private theorem holds_addSeconds? (order : TimeOrder) {now t u : Time.Instant} {m n : Int}
    (first : now.addSeconds? m = some t) (second : now.addSeconds? n = some u) :
    order.holds t u = order.onIntegers m n := by
  cases order with
  | before => exact decide_eq_decide.mpr (Time.Instant.addSeconds?_lt_iff first second)
  | upTo => exact decide_eq_decide.mpr (Time.Instant.addSeconds?_le_iff first second)
  | after => exact decide_eq_decide.mpr (Time.Instant.addSeconds?_lt_iff second first)
  | since => exact decide_eq_decide.mpr (Time.Instant.addSeconds?_le_iff second first)

end TimeOrder

/-- Whether the calendar has the instant so many seconds from now. -/
def Reaches (now : Time.Instant) (n : Int64) : Bool := (now.addSeconds? n.toInt).isSome

private theorem not_reaches_minValue (now : Time.Instant) : Reaches now Int64.minValue = false := by
  rw [Reaches, Option.isSome_eq_false_iff, Option.isNone_iff_eq_none, Option.eq_none_iff_forall_ne_some]
  intro t found
  have seconds := congrArg (fun key => (ofLex key).1) (Time.Instant.key_addSeconds? found)
  have least : Int64.minValue.toInt = -2 ^ 63 := rfl
  have low := t.inCalendar.1
  have high := now.inCalendar.2
  simp only [Time.Instant.key, Time.Instant.reach, least, Time.earliestSecond, Time.latestSecond,
    ofLex_toLex] at seconds low high
  split_ifs at seconds <;> simp only [ofLex_toLex] at seconds <;> omega

private theorem binaryValue_order (now : Time.Instant) (order : TimeOrder) (left right : Value) :
    binaryValue now order.op left right =
      .ok (.boolean (ordered now order.holds left.unwrapped right.unwrapped)) := by
  cases order <;> rfl

private theorem binaryValue_integers (now : Time.Instant) (order : TimeOrder) (m n : Int64) :
    binaryValue now order.op (.integer m) (.integer n) =
      .ok (.boolean (Reaches now m && Reaches now n && order.onIntegers m.toInt n.toInt)) := by
  have meant (n : Int64) : (Value.integer n).instant? now = now.addSeconds? n.toInt := rfl
  rw [binaryValue_order, Value.unwrapped, Value.unwrapped, ordered, meant, meant, Reaches, Reaches]
  · congr 2
    cases first : now.addSeconds? m.toInt with
    | none => rfl
    | some t =>
      cases second : now.addSeconds? n.toInt with
      | none => rfl
      | some u => exact order.holds_addSeconds? first second
  all_goals simp

section Writing

/-- A number alone is no duration, and none begins within it. -/
theorem replaceFrom_intDigits (n : Int) (before : List Char) :
    replaceFrom durationRule before 0 (intDigits n) = intDigits n := by
  have digits : ∀ c ∈ natDigits n.natAbs, c.isDigit = true := fun _ => isDigit_of_mem_natDigits
  obtain ⟨sign, signed, written⟩ : ∃ sign, (sign = [] ∨ sign = ['-']) ∧
      intDigits n = sign ++ natDigits n.natAbs := by
    unfold intDigits
    split
    · exact ⟨['-'], .inr rfl, rfl⟩
    · exact ⟨[], .inl rfl, rfl⟩
  have none {sign number : List Char} (signed : sign = [] ∨ sign = ['-']) (some : number ≠ [])
      (all : ∀ c ∈ number, c.isDigit = true) : Duration.scan? (sign ++ (number ++ [])) = none := by
    obtain ⟨made, scanned⟩ := Duration.scan?_number signed (.integer some all)
      (show EndsNumber [] by simp [EndsNumber])
    exact scanned
  suffices passes : Passes before (intDigits n) [] by
    simpa [replaceFrom] using passes.text
  refine passes_run (fun front back split some => ?_) before
  rw [written] at split
  rcases List.append_eq_append_iff.mp split with ⟨left, rfl, same⟩ | ⟨left, same, rfl⟩
  · have all : ∀ c ∈ back, c.isDigit = true := fun c member =>
      digits c (by rw [same]; exact List.mem_append_right _ member)
    exact none (.inl rfl) some all
  · rw [List.append_assoc]
    refine none ?_ (natDigits_ne_nil _) digits
    rcases signed with rfl | rfl
    · exact .inl (List.append_eq_nil_iff.mp same.symm).2
    · cases front with
      | nil => exact .inr same.symm
      | cons c front =>
        exact .inl (List.append_eq_nil_iff.mp (List.cons.inj same).2.symm).2

theorem exists_reads_intDigits {table : OperatorTable} (minus : UnaryOp.negate ∈ table.unary) {n : Int64}
    (opposite : n ≠ Int64.minValue) :
    ∃ e, Reads table none (intDigits n.toInt) e ∧
      ∀ context, asOperand e (eval context e) = .ok (.integer n) := by
  have reads {n : Int64} (nonnegative : 0 ≤ n.toInt) :
      Reads table none (natDigits n.toInt.toNat) (.integer n) :=
    @Reads.leaf _ _ _ (.value (.integer n)) (spells_integer nonnegative) (fun _ => rfl) (by simp)
  by_cases negative : n.toInt < 0
  · have fits : FitsWord (-n.toInt) := by
      have least : n.toInt ≠ -2 ^ 63 := fun same => opposite (Int64.toInt.inj same)
      have low := n.le_toInt
      unfold FitsWord
      omega
    obtain ⟨m, negated⟩ : ∃ m : Int64, m.toInt = -n.toInt := ⟨_, Int64.toInt_ofInt_of_le fits.1 fits.2⟩
    have size : n.toInt.natAbs = m.toInt.toNat := by omega
    refine ⟨.unary .negate (.integer m), ?_, fun context => ?_⟩
    · rw [intDigits, if_pos negative, size]
      exact (reads (by omega)).unary minus
    · have value : unaryValue .negate (.integer m) = .integer n := by
        rw [unaryValue, wordValue, negated, Int.neg_neg, word?_toInt]
        rfl
      exact congrArg Except.ok value
  · refine ⟨.integer n, ?_, fun _ => rfl⟩
    have size : n.toInt.natAbs = n.toInt.toNat := by omega
    rw [intDigits, if_neg negative, size]
    exact reads (by omega)

def countQuery (name : String) (order : TimeOrder) (n : Int64) : String :=
  String.ofList (name.toList ++ ' ' :: (order.op.spelling ++ ' ' :: intDigits n.toInt))

private theorem expand_countQuery {name : String} (listed : name ∈ fieldNames) (order : TimeOrder)
    (n : Int64) :
    expand [] (countQuery name order n).toList = (countQuery name order n).toList := by
  have sign : Steady (' ' :: (order.op.spelling ++ [' '])) := by
    cases order <;> exact steady_plain (by decide)
  have front := (steady_fieldName listed).append sign
  have text : (countQuery name order n).toList =
      name.toList ++ ' ' :: (order.op.spelling ++ [' ']) ++ intDigits n.toInt := by
    simp [countQuery]
  have whole := front.stays [] (intDigits n.toInt) rfl
  rw [replaceFrom_intDigits] at whole
  rw [text]
  exact whole

end Writing

/-- Two numbers are compared through the clock as they are compared as numbers, whenever the calendar has
both instants, and otherwise every comparison is false. A query for counts above or below a number selects
accordingly; the least word is not within reach at any time, and has no written form to be read. -/
theorem numbers_are_ordered_as_instants (now : Time.Instant) :
    (∀ (order : TimeOrder) (m n : Int64),
      binaryValue now order.op (.integer m) (.integer n) =
        .ok (.boolean (Reaches now m && Reaches now n && order.onIntegers m.toInt n.toInt))) ∧
    (∀ (name : String) (counted : CountField), Field.ofNameOrAlias? name = some counted.field →
      ∀ (order : TimeOrder) (n : Int64), n ≠ Int64.minValue → ∀ records : List PullRequest,
        Filter.run .standard [] now records (.query (countQuery name order n)) =
          .ok (records.filter fun pr => Reaches now (counted.count pr) && Reaches now n &&
            order.onIntegers (counted.count pr).toInt n.toInt)) ∧
    Reaches now Int64.minValue = false := by
  refine ⟨binaryValue_integers now, ?_, not_reaches_minValue now⟩
  intro name counted named order n opposite records
  have listed := mem_fieldNames named
  obtain ⟨e, right, value⟩ := @exists_reads_intDigits .standard (.head _) n opposite
  have left : Reads .standard none name.toList (.name name) :=
    @Reads.leaf _ _ _ (.name name) (spells_name (tokenize_fieldName listed)) (fun _ => rfl) (by simp)
  have known : OperatorTable.standard.precedence order.op = .some 4 := by cases order <;> rfl
  have parsed : parse .standard (expand [] (countQuery name order n).toList) =
      .ok (.binary order.op (.name name) e) := by
    rw [expand_countQuery listed, countQuery, String.toList_ofList]
    exact (left.binary known (by simp) right (by simp)).part.parse
  refine run_truth parsed fun pr _ => ?_
  have compares : order.op.compares = true := by cases order <;> rfl
  rw [eval_binary, eval, field_of_count named, compares, ← binaryValue_integers]
  simp only [if_true, value]
  rfl

/-- Inside a leap second a second ago is the second before it, and now is still after that. A number of
seconds beyond the calendar selects nothing, although every count is less. -/
theorem numbers_are_ordered_as_instants_leap :
    let now : Time.Instant := ⟨59, 1000000005, by decide, by decide, by decide⟩
    (countQuery "comments" .after (-1) = "comments > -1" ∧
      Field.ofNameOrAlias? "comments" = some CountField.totalComments.field ∧ (-1 : Int64) ≠ Int64.minValue ∧
      now.addSeconds? (-1) = some ⟨59, 5, by decide, by decide, by decide⟩ ∧ now.addSeconds? 0 = some now) ∧
    Filter.run .standard [] now [.sample] (.query (countQuery "comments" .after (-1))) = .ok [.sample] ∧
    Filter.run .standard [] now [.sample] (.query (countQuery "number" .before 9000000000000)) = .ok [] := by
  intro now
  obtain ⟨-, selects, -⟩ := numbers_are_ordered_as_instants now
  have recent := selects "comments" .totalComments rfl .after (-1) (by decide) [.sample]
  have far := selects "number" .number rfl .before 9000000000000 (by decide) [.sample]
  exact ⟨⟨rfl, rfl, by decide, by decide, by decide⟩, recent.trans (congrArg _ (by decide)),
    far.trans (congrArg _ (by decide))⟩

end PullQuery.Query
