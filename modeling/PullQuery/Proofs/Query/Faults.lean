import PullQuery.Proofs.Query.Selecting

/-! Where an evaluation fails. Nothing is skipped: calls and sums are come to from left to right, each
after its arguments, and the first of them that has a fault decides. -/
namespace PullQuery.Query
open PullQuery.Data

inductive Site where
  | call (function : String) (arguments : List Expr)
  | sum (kind : SumKind) (left right : Expr)

def BinaryOp.sumKind? : BinaryOp → Option SumKind
  | add => some .addition
  | subtract => some .subtraction
  | _ => none

namespace Expr
mutual

/-- The calls and sums in a tree, from left to right, each behind those in its operands. -/
def sites : Expr → List Site
  | .unary _ e => e.sites
  | .binary op l r => l.sites ++ (r.sites ++ (op.sumKind?.map (Site.sum · l r)).toList)
  | .list es | .all es => sitesIn es
  | .call function es => sitesIn es ++ [.call function es]
  | .integer _ | .float _ | .text _ | .boolean _ | .null | .name _ => []

def sitesIn : List Expr → List Site
  | [] => []
  | e :: rest => e.sites ++ sitesIn rest

end
mutual

def calls : Expr → List (String × List Expr)
  | .unary _ e => e.calls
  | .binary _ l r => l.calls ++ r.calls
  | .list es | .all es => callsIn es
  | .call function es => callsIn es ++ [(function, es)]
  | .integer _ | .float _ | .text _ | .boolean _ | .null | .name _ => []

def callsIn : List Expr → List (String × List Expr)
  | [] => []
  | e :: rest => e.calls ++ callsIn rest

end
end Expr

def Site.call? : Site → Option (String × List Expr)
  | call function arguments => some (function, arguments)
  | sum _ _ _ => none

mutual

private theorem Expr.calls_eq (e : Expr) : e.calls = e.sites.filterMap Site.call? := by
  match e with
  | .unary _ e => exact e.calls_eq
  | .binary op l r =>
    have own : (op.sumKind?.map (Site.sum · l r)).toList.filterMap Site.call? = [] := by
      cases op.sumKind? <;> rfl
    simp [calls, sites, l.calls_eq, r.calls_eq, own]
  | .list es => exact callsIn_eq es
  | .all es => exact callsIn_eq es
  | .call function es => simp [calls, sites, callsIn_eq es, Site.call?]
  | .integer _ | .float _ | .text _ | .boolean _ | .null | .name _ => rfl

theorem Expr.callsIn_eq (es : List Expr) : callsIn es = (sitesIn es).filterMap Site.call? := by
  match es with
  | [] => rfl
  | e :: rest => rw [callsIn, sitesIn, List.filterMap_append, e.calls_eq, callsIn_eq rest]

end

/-- Lists and instants are no texts. Every other value that is there is taken for its text. -/
def isTextless : Value → Bool
  | .list _ | .instant _ => true
  | _ => false

/-- What is wrong with a call whose arguments have values: no function has its name, the first
argument is no text, or the text of the first argument names no mode. -/
inductive CallFault (context : Context) : String × List Expr → EvalError → Prop
  | unknown {function : String} {arguments : List Expr} (unlisted : function ∉ Function.names) :
      CallFault context (function, arguments) (.unknownFunction function context.record.id)
  | notText {function : String} {e : Expr} {rest : List Expr} {value : Value}
      (listed : function ∈ Function.names) (first : asOperand e (eval context e) = .ok value)
      (textless : isTextless value = true) :
      CallFault context (function, e :: rest) (.notText function value.kindName)
  | mode {e : Expr} {rest : List Expr} {value : Value}
      (first : asOperand e (eval context e) = .ok value) (present : value ≠ .null)
      (textual : isTextless value = false)
      (newest : Text.sameAsciiFolded value.asText "newest" = false)
      (latest : Text.sameAsciiFolded value.asText "latest" = false) :
      CallFault context (Function.requestedAt, e :: rest)
        (.unknownMode Function.requestedAt value.asText)

inductive Fault (context : Context) : Site → EvalError → Prop
  | call {function : String} {arguments : List Expr} {err : EvalError}
      (faulty : CallFault context (function, arguments) err) :
      Fault context (.call function arguments) err
  | sum {kind : SumKind} {l r : Expr} {left right : Value} (lefts : eval context l = .ok left)
      (rights : eval context r = .ok right) (exceeds : sum kind left right = .error (.overflow kind)) :
      Fault context (.sum kind l r) (.overflow kind)

theorem CallFault.unique {context : Context} {call : String × List Expr} {err other : EvalError}
    (faulty : CallFault context call err) (again : CallFault context call other) : err = other := by
  cases faulty <;> cases again <;> simp_all [Function.names]

theorem RequestChoice.ofText?_eq_none {s : String} :
    RequestChoice.ofText? s = none ↔
      Text.sameAsciiFolded s "newest" = false ∧ Text.sameAsciiFolded s "latest" = false := by
  rw [RequestChoice.ofText?]
  cases Text.sameAsciiFolded s "newest" <;> cases Text.sameAsciiFolded s "latest" <;> simp

namespace Function
variable {context : Context} {function : String} {value : Value} {rest : List Value}

private theorem textArgument_textless (default : String) (textless : isTextless value = true) :
    textArgument function default (value :: rest) = .error (.notText function value.kindName) := by
  cases value <;> first | rfl | simp [isTextless] at textless

private theorem textArgument_textual (default : String) (present : value ≠ .null)
    (textual : isTextless value = false) :
    textArgument function default (value :: rest) = .ok value.asText := by
  cases value with
  | null => exact absurd rfl present
  | list _ => simp [isTextless] at textual
  | instant _ => simp [isTextless] at textual
  | _ => rfl

private theorem call_reviewDate {values : List Value} {state : String}
    (taken : textArgument reviewDate "APPROVED" values = .ok state) :
    call context reviewDate values = .ok (.instant (context.record.lastReviewAt state)) := by
  rw [call, if_pos rfl, taken]
  rfl

theorem call_requestedAt {values : List Value} {mode : String}
    (taken : textArgument requestedAt "newest" values = .ok mode) :
    call context requestedAt values =
      match RequestChoice.ofText? mode with
      | none => .error (.unknownMode requestedAt mode)
      | some mode =>
        .ok (((context.record.openRequests.requestedAt? mode).map Value.instant).getD .null) := by
  rw [call, if_neg (by decide), if_pos rfl, taken]
  change (match RequestChoice.ofText? mode with | none => _ | some _ => _) = _
  cases RequestChoice.ofText? mode <;> rfl

private theorem call_unlisted {values : List Value} (unlisted : function ∉ names) :
    call context function values = .error (.unknownFunction function context.record.id) := by
  simp only [names, List.mem_cons, List.not_mem_nil, or_false, not_or] at unlisted
  rw [call, if_neg unlisted.1, if_neg unlisted.2]
  rfl

private theorem call_textless (listed : function ∈ names) (textless : isTextless value = true) :
    call context function (value :: rest) = .error (.notText function value.kindName) := by
  obtain rfl | rfl : function = reviewDate ∨ function = requestedAt := by simpa [names] using listed
  · rw [call, if_pos rfl, textArgument_textless _ textless]
    rfl
  · rw [call, if_neg (by decide), if_pos rfl, textArgument_textless _ textless]
    rfl

theorem call_textual {err : EvalError} (listed : function ∈ names) (present : value ≠ .null)
    (textual : isTextless value = false) :
    call context function (value :: rest) = .error err ↔
      function = requestedAt ∧ RequestChoice.ofText? value.asText = none ∧
        err = .unknownMode requestedAt value.asText := by
  obtain rfl | rfl : function = reviewDate ∨ function = requestedAt := by simpa [names] using listed
  · have other : reviewDate ≠ requestedAt := by decide
    rw [call_reviewDate (textArgument_textual _ present textual)]
    simp [other]
  · rw [call_requestedAt (textArgument_textual _ present textual)]
    cases RequestChoice.ofText? value.asText <;> simp [eq_comm]

variable (context) in
theorem call_default {values : List Value} (listed : function ∈ names)
    (absent : ∀ default, textArgument function default values = .ok default) :
    ∃ result, call context function values = .ok result := by
  obtain rfl | rfl : function = reviewDate ∨ function = requestedAt := by simpa [names] using listed
  · exact ⟨_, call_reviewDate (absent _)⟩
  · exact ⟨_, call_requestedAt (absent _)⟩

end Function

theorem evalOperands_nil (context : Context) : evalOperands context [] = .ok [] := rfl

theorem evalOperands_cons (context : Context) (e : Expr) (rest : List Expr) :
    evalOperands context (e :: rest) =
      asOperand e (eval context e) >>= fun value =>
        evalOperands context rest >>= fun values => .ok (value :: values) := rfl

private theorem evalOperands_ok {context : Context} {e : Expr} {rest : List Expr}
    {values : List Value} (evaluates : evalOperands context (e :: rest) = .ok values) :
    ∃ value others, asOperand e (eval context e) = .ok value ∧ values = value :: others := by
  rw [evalOperands_cons] at evaluates
  cases first : asOperand e (eval context e) with
  | error err => simp [first, bind, Except.bind] at evaluates
  | ok value =>
    cases behind : evalOperands context rest with
    | error err => simp [first, behind, bind, Except.bind] at evaluates
    | ok others =>
      refine ⟨value, others, rfl, ?_⟩
      simpa [first, behind, bind, Except.bind, eq_comm] using evaluates

private theorem CallFault.call {context : Context} {function : String} {es : List Expr}
    {values : List Value} {err : EvalError} (evaluates : evalOperands context es = .ok values)
    (faulty : CallFault context (function, es) err) :
    Function.call context function values = .error err := by
  cases faulty with
  | unknown unlisted => exact Function.call_unlisted unlisted
  | notText listed first textless =>
    obtain ⟨value, others, again, rfl⟩ := evalOperands_ok evaluates
    obtain rfl := Except.ok.inj (again.symm.trans first)
    exact Function.call_textless listed textless
  | mode first present textual newest latest =>
    obtain ⟨value, others, again, rfl⟩ := evalOperands_ok evaluates
    obtain rfl := Except.ok.inj (again.symm.trans first)
    apply (Function.call_textual (by simp [Function.names]) present textual).mpr
    exact ⟨rfl, RequestChoice.ofText?_eq_none.mpr ⟨newest, latest⟩, rfl⟩

private theorem callFault_of_call {context : Context} {function : String} {es : List Expr}
    {values : List Value} {err : EvalError} (evaluates : evalOperands context es = .ok values)
    (stopped : Function.call context function values = .error err) :
    CallFault context (function, es) err := by
  by_cases listed : function ∈ Function.names
  · cases es with
    | nil =>
      obtain rfl := Except.ok.inj ((evalOperands_nil context).symm.trans evaluates)
      have absent (default : String) : Function.textArgument function default [] = .ok default := rfl
      obtain ⟨result, called⟩ := Function.call_default context listed absent
      simp [called] at stopped
    | cons e rest =>
      obtain ⟨value, others, first, rfl⟩ := evalOperands_ok evaluates
      cases textual : isTextless value with
      | true =>
        rw [Function.call_textless listed textual, Except.error.injEq] at stopped
        exact stopped ▸ .notText listed first textual
      | false =>
        by_cases absent : value = .null
        · subst absent
          have taken (default : String) :
              Function.textArgument function default (.null :: others) = .ok default := rfl
          obtain ⟨result, called⟩ := Function.call_default context listed taken
          simp [called] at stopped
        · obtain ⟨rfl, unknown, rfl⟩ := (Function.call_textual listed absent textual).mp stopped
          obtain ⟨newest, latest⟩ := RequestChoice.ofText?_eq_none.mp unknown
          exact .mode first absent textual newest latest
  · rw [Function.call_unlisted listed, Except.error.injEq] at stopped
    exact stopped ▸ .unknown listed

private theorem sum_error {kind : SumKind} {left right : Value} {err : EvalError}
    (stopped : sum kind left right = .error err) : err = .overflow kind := by
  unfold sum at stopped
  split at stopped
  · simp at stopped
  · split at stopped
    · unfold sumFloats at stopped
      split at stopped
      · split at stopped
        · exact (Except.error.inj stopped).symm
        · simp at stopped
      · simp at stopped
    · simp at stopped

theorem binaryValue_of_sumKind? {now : Time.Instant} {op : BinaryOp} {kind : SumKind}
    (sums : op.sumKind? = some kind) (left right : Value) :
    binaryValue now op left right = sum kind left right := by
  cases op <;> simp [BinaryOp.sumKind?] at sums <;> subst sums <;> rfl

theorem binaryValue_ok (now : Time.Instant) {op : BinaryOp} (other : op.sumKind? = none)
    (left right : Value) : ∃ b, binaryValue now op left right = .ok (.boolean b) := by
  cases op <;> simp [BinaryOp.sumKind?] at other <;> exact ⟨_, rfl⟩

private theorem compares_of_sumKind? {op : BinaryOp} {kind : SumKind}
    (sums : op.sumKind? = some kind) :
    op.compares = false := by
  cases op <;> simp [BinaryOp.sumKind?] at sums <;> rfl

private theorem decides_asOperand {context : Context} {e : Expr}
    (decides : Decides (Fault context) e.sites (eval context e)) :
    Decides (Fault context) e.sites (asOperand e (eval context e)) := by
  cases e with
  | name s => exact .ok _
  | _ => exact decides

private theorem decides_call {context : Context} {function : String} {es : List Expr}
    {values : List Value} (evaluates : evalOperands context es = .ok values) :
    Decides (Fault context) [.call function es] (Function.call context function values) := by
  apply Decides.single
  intro err
  constructor
  · intro stopped
    exact .call (callFault_of_call evaluates stopped)
  · intro fault
    obtain ⟨faulty⟩ := fault
    exact faulty.call evaluates

private theorem decides_sum {context : Context} {kind : SumKind} {l r : Expr} {left right : Value}
    (lefts : eval context l = .ok left) (rights : eval context r = .ok right) :
    Decides (Fault context) [.sum kind l r] (sum kind left right) := by
  apply Decides.single
  intro err
  constructor
  · intro stopped
    obtain rfl := sum_error stopped
    exact .sum lefts rights stopped
  · intro fault
    obtain _ | ⟨first, second, exceeds⟩ := fault
    obtain rfl := Except.ok.inj (lefts.symm.trans first)
    obtain rfl := Except.ok.inj (rights.symm.trans second)
    exact exceeds

mutual

/-- The calls and sums of a query tell whether it has a value for a record. -/
theorem decides_eval (context : Context) (e : Expr) :
    Decides (Fault context) e.sites (eval context e) := by
  match e with
  | .unary op e => exact (decides_eval context e).map
  | .binary op l r =>
    rw [eval_binary]
    apply (decides_eval context l).bind
    intro left lefts
    have second := decides_eval context r
    cases sums : op.sumKind? with
    | none =>
      -- Taken as an operand or not, the right side is stopped by the same parts.
      have either : Decides (Fault context) r.sites
          (if op.compares then asOperand r (eval context r) else eval context r) := by
        split
        · exact decides_asOperand second
        · exact second
      apply either.bind
      intro right _
      obtain ⟨b, same⟩ := binaryValue_ok context.now sums left right
      exact same ▸ .ok _
    | some kind =>
      rw [compares_of_sumKind? sums]
      apply second.bind
      intro right rights
      rw [binaryValue_of_sumKind? sums]
      exact decides_sum lefts rights
  | .list es => exact (decides_evalOperands context es).map
  | .call function es =>
    exact (decides_evalOperands context es).bind fun values evaluates => decides_call evaluates
  | .all es => exact (decides_evalAll context es).map
  | .integer _ | .float _ | .text _ | .boolean _ | .null | .name _ => exact .ok _

theorem decides_evalOperands (context : Context) (es : List Expr) :
    Decides (Fault context) (Expr.sitesIn es) (evalOperands context es) := by
  match es with
  | [] => exact .ok _
  | e :: rest =>
    apply (decides_asOperand (decides_eval context e)).bind
    intro value _
    exact (decides_evalOperands context rest).map

theorem decides_evalAll (context : Context) (es : List Expr) :
    Decides (Fault context) (Expr.sitesIn es) (evalAll context es) := by
  match es with
  | [] => exact .ok _
  | e :: rest =>
    apply (decides_eval context e).bind
    intro value _
    exact (decides_evalAll context rest).map

end

private theorem failsFirst_calls {context : Context} {sites : List Site} {err : EvalError}
    (failing : FailsFirst (Fault context) sites err) (other : ∀ kind, err ≠ .overflow kind) :
    FailsFirst (CallFault context) (sites.filterMap Site.call?) err := by
  obtain ⟨before, site, behind, rfl, sound, fault⟩ := failing
  cases fault with
  | sum _ _ _ => exact absurd rfl (other _)
  | call faulty =>
    refine ⟨before.filterMap Site.call?, _, behind.filterMap Site.call?, ?_, ?_, faulty⟩
    · simp [Site.call?]
    · intro call member
      obtain ⟨site, placed, named⟩ := List.mem_filterMap.mp member
      cases site with
      | call function arguments =>
        obtain rfl := Option.some.inj named
        intro err faulty
        exact sound _ placed err (.call faulty)
      | sum kind l r => simp [Site.call?] at named

section Calls
variable {context : Context} {e : Expr} (fits : ∀ kind, eval context e ≠ .error (.overflow kind))

include fits

theorem decides_calls :
    Decides (CallFault context) e.calls (eval context e) := by
  have forth (err : EvalError) (stopped : eval context e = .error err) :
      FailsFirst (CallFault context) e.calls err := by
    rw [e.calls_eq]
    apply failsFirst_calls ((decides_eval context e err).mp stopped)
    intro kind same
    exact fits kind (same ▸ stopped)
  intro err
  refine ⟨forth err, fun failing => ?_⟩
  -- A faulty call is a faulty part, so there is an error, and it is that of the first faulty call.
  obtain ⟨call, member, other, faulty⟩ := exists_failsFirst.mp ⟨err, failing⟩
  rw [e.calls_eq] at member
  obtain ⟨site, placed, named⟩ := List.mem_filterMap.mp member
  cases site with
  | sum kind l r => simp [Site.call?] at named
  | call function arguments =>
    obtain rfl := Option.some.inj named
    obtain ⟨actual, stopped⟩ :=
      (decides_eval context e).fails_iff.mpr ⟨_, placed, other, .call faulty⟩
    have functional (call : String × List Expr) (err other : EvalError) :
        CallFault context call err → CallFault context call other → err = other :=
      CallFault.unique
    obtain rfl := (forth actual stopped).unique functional failing
    exact stopped

end Calls

/-- A query fails for a record exactly as the first of its calls that has a fault, whatever stands
around it, and for several records exactly as the first record for which it fails. If it fails for
none then the records stay for which its value counts as true. -/
theorem fails_as_first_faulty_call (e : Expr) (now : Time.Instant) :
    (∀ record, (∀ kind, eval ⟨record, now⟩ e ≠ .error (.overflow kind)) →
      ((∃ err, eval ⟨record, now⟩ e = .error err) ↔
        ∃ call ∈ e.calls, ∃ err, CallFault ⟨record, now⟩ call err) ∧
      ∀ err, eval ⟨record, now⟩ e = .error err ↔
        FailsFirst (CallFault ⟨record, now⟩) e.calls err) ∧
    ∀ records,
      (∀ err, select e now records = .error err ↔
        FailsFirst (fun pr err => eval ⟨pr, now⟩ e = .error err) records err) ∧
      ∀ kept, select e now records = .ok kept ↔
        (∀ pr ∈ records, ∃ value, eval ⟨pr, now⟩ e = .ok value) ∧
          kept = records.filter fun pr => accepts ⟨pr, now⟩ e := by
  constructor
  · intro record fits
    have decides := decides_calls fits
    exact ⟨decides.fails_iff, decides⟩
  · intro records
    exact ⟨decides_select e now records, fun kept => select_ok⟩

/-- `false AND nope(getReviewRequestedAt(oldest))` -/
def nestedCalls : Expr :=
  .binary .and (.boolean false) (.call "nope" [.call Function.requestedAt [.name "oldest"]])

theorem fails_as_first_faulty_call_nested :
    (∀ kind, eval ⟨.sample, .epoch⟩ nestedCalls ≠ .error (.overflow kind)) ∧
      eval ⟨.sample, .epoch⟩ nestedCalls = .error (.unknownMode Function.requestedAt "oldest") := by
  have fits (kind : SumKind) : eval ⟨.sample, .epoch⟩ nestedCalls ≠ .error (.overflow kind) := by
    have stopped : eval ⟨.sample, .epoch⟩ nestedCalls =
        .error (.unknownMode Function.requestedAt "oldest") := rfl
    simp [stopped]
  have faulty : CallFault ⟨.sample, .epoch⟩ (Function.requestedAt, [.name "oldest"])
      (.unknownMode Function.requestedAt (Value.text "oldest").asText) :=
    .mode rfl (by simp) rfl (by decide) (by decide)
  have told := ((fails_as_first_faulty_call nestedCalls .epoch).1 .sample fits).2
  exact ⟨fits, (told _).mpr ⟨[], _, [("nope", _)], rfl, by simp, faulty⟩⟩

end PullQuery.Query
