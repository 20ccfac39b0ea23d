import PullQuery.Proofs.Query.Operands
import PullQuery.Proofs.Query.SourceOrder

/-! The precedences decide the tree of a text without parentheses. Along the waiting operators every
binary one binds more tightly than the one that it waits inside of, and the operator that comes next
takes from them exactly what its left operand may be. -/
namespace PullQuery.Query

/-- A tree of operators, literals and names alone. The left operand of a binary operator binds at least
as tightly as the operator, the right one more tightly, and below a unary operator stands no binary
one. -/
inductive Expr.Climbs (table : OperatorTable) : Expr → Prop
  | integer (n : Int64) : Climbs table (.integer n)
  | float (x : Float) : Climbs table (.float x)
  | text (s : String) : Climbs table (.text s)
  | boolean (b : Bool) : Climbs table (.boolean b)
  | null : Climbs table .null
  | name (s : String) : Climbs table (.name s)
  | unary {op : UnaryOp} {e : Expr} (operand : Climbs table e) (tight : e.rank? table = none) :
      Climbs table (.unary op e)
  | binary {op : BinaryOp} {left right : Expr} {precedence : Nat}
      (known : table.precedence op = some precedence) (first : Climbs table left)
      (second : Climbs table right) (notLooser : ∀ p ∈ left.rank? table, precedence ≤ p)
      (tighter : ∀ p ∈ right.rank? table, precedence < p) : Climbs table (.binary op left right)

def StartsPart (table : OperatorTable) (tokens : List Token) : Prop :=
  ∃ token rest, tokens = token :: rest ∧ table.binary? token = none

theorem StartsPart.append {table : OperatorTable} {tokens : List Token}
    (starts : StartsPart table tokens) (others : List Token) : StartsPart table (tokens ++ others) := by
  obtain ⟨token, rest, rfl, ends⟩ := starts
  exact ⟨token, rest ++ others, rfl, ends⟩

namespace Grammar
variable {table : OperatorTable} {s next : State} {token : Token}

private theorem rank?_binary {op : BinaryOp} {precedence : Nat}
    (known : table.precedence op = some precedence) (left right : Expr) :
    (Expr.binary op left right).rank? table = some precedence := by
  simp [Expr.rank?, OperatorTable.rank, known]

private theorem binary?_symbol (table : OperatorTable) (token : Token) :
    table.binary? token.symbol = table.binary? token := by cases token <;> rfl

/-- Waiting operators that bind more and more tightly, from the outermost to the innermost, each with
a left operand that it may have. Only unary operators stand inside of unary ones. -/
inductive Ascends (table : OperatorTable) : List Pending → Prop
  | nil : Ascends table []
  | unary {op : UnaryOp} {outer : List Pending} (behind : Ascends table outer) :
      Ascends table (.unary op :: outer)
  | binary {left : Expr} {op : BinaryOp} {precedence : Nat} {outer : List Pending}
      (known : table.precedence op = some precedence) (climbs : left.Climbs table)
      (notLooser : ∀ p ∈ left.rank? table, precedence ≤ p) (waits : Waits precedence outer)
      (behind : Ascends table outer) : Ascends table (.binary left op precedence :: outer)

/-- The innermost waiting operator may have the tree as its operand. -/
private def Fits (table : OperatorTable) (e : Expr) : List Pending → Prop
  | [] => True
  | .unary _ :: _ => e.rank? table = none
  | .binary _ _ own :: _ => ∀ p ∈ e.rank? table, own < p

private theorem fits_of_rank? {e : Expr} (atom : e.rank? table = none) (pending : List Pending) :
    Fits table e pending := by
  match pending with
  | [] => trivial
  | .unary op :: _ => exact atom
  | .binary left op own :: _ => simp [Fits, atom]

private theorem Waits.fits {precedence : Nat} {outer : List Pending}
    (waits : Waits precedence outer)
    {e : Expr} (rank : e.rank? table = some precedence) : Fits table e outer := by
  match outer, waits with
  | [], _ => trivial
  | .binary left op own :: _, looser =>
    intro p found
    obtain rfl : precedence = p := by simpa [rank] using found
    exact looser

private theorem reduce_climbs {precedence : Nat} {pending : List Pending} {e : Expr}
    (ascends : Ascends table pending) (climbs : e.Climbs table) (fits : Fits table e pending)
    (notLooser : ∀ p ∈ e.rank? table, precedence ≤ p) :
    Ascends table (reduce precedence pending e).1 ∧
      Waits precedence (reduce precedence pending e).1 ∧
      (reduce precedence pending e).2.Climbs table ∧
      ∀ p ∈ (reduce precedence pending e).2.rank? table, precedence ≤ p := by
  induction ascends generalizing e with
  | nil => exact ⟨.nil, trivial, climbs, notLooser⟩
  | @unary op outer behind ih =>
    have atom : (Expr.unary op e).rank? table = none := rfl
    exact ih (.unary climbs fits) (fits_of_rank? atom outer) (by simp [atom])
  | @binary left op own outer known first tight waits behind ih =>
    rw [reduce]
    split
    · rename_i enough
      have rank := rank?_binary known left e
      refine ih (.binary known first climbs tight fits) (waits.fits rank) ?_
      simpa [rank] using enough
    · rename_i loose
      exact ⟨.binary known first tight waits behind, Nat.not_le.mp loose, climbs, notLooser⟩

theorem reduce_zero (pending : List Pending) (e : Expr) :
    reduce 0 pending e = ([], reduceAll pending e) := by
  induction pending generalizing e with
  | nil => rfl
  | cons operator rest ih => cases operator <;> simp [reduce, reduceAll, ih]

private theorem reduceAll_climbs {pending : List Pending} {e : Expr}
    (ascends : Ascends table pending)
    (climbs : e.Climbs table) (fits : Fits table e pending) : (reduceAll pending e).Climbs table := by
  have reduced := (reduce_climbs ascends climbs fits fun _ _ => Nat.zero_le _).2.2.1
  rwa [reduce_zero] at reduced

/-- What holds of the parser between two tokens of a text without parentheses and commas. -/
structure State.Climbing (table : OperatorTable) (s : State) : Prop where
  outermost : s.groups = []
  parts : ∀ part ∈ s.parts, part.Climbs table
  pending : Ascends table s.pending
  operand : ∀ operand ∈ s.operand, operand.expr.Climbs table ∧ operand.expr.rank? table = none
  apart : ∀ part ∈ s.parts.reverse.tail, StartsPart table part.tokens
  begun : s.parts ≠ [] → StartsPart table s.current

private theorem climbs_of_operand {operand : Operand}
    (leaf : Operand.ofToken? token = some operand) :
    operand.expr.Climbs table ∧ operand.expr.rank? table = none := by
  cases token <;> simp [Operand.ofToken?] at leaf <;> obtain rfl := leaf <;>
    exact ⟨by constructor, rfl⟩

private theorem Starts.current (starts : Starts table s token next) (idle : s.operand = none)
    (plain : token.isDelimiter = false) : next.current = s.current ++ [token.symbol] := by
  cases starts with
  | operand leaf => simp [State.current, idle, token_of_operand leaf]
  | unary known => simp [State.current, idle, Pending.tokens, token_of_unary? known]
  | openParen => simp [Token.isDelimiter] at plain

private theorem Starts.climbing (starts : Starts table s token next) (idle : s.operand = none)
    (plain : token.isDelimiter = false) (outermost : s.groups = [])
    (parts : ∀ part ∈ s.parts, part.Climbs table) (pending : Ascends table s.pending)
    (apart : ∀ part ∈ s.parts.reverse.tail, StartsPart table part.tokens)
    (begun : s.parts ≠ [] → StartsPart table (s.current ++ [token.symbol])) :
    next.Climbing table := by
  have current := starts.current idle plain
  cases starts with
  | operand leaf =>
    refine ⟨outermost, parts, pending, ?_, apart, current ▸ begun⟩
    rintro operand ⟨⟩
    exact climbs_of_operand leaf
  | unary known =>
    refine ⟨outermost, parts, .unary pending, ?_, apart, current ▸ begun⟩
    simp [idle]
  | openParen => simp [Token.isDelimiter] at plain

theorem Moves.climbing (moves : Moves table s token next) (plain : token.isDelimiter = false)
    (climbing : s.Climbing table) : next.Climbing table := by
  cases moves with
  | start idle starts =>
    exact starts.climbing idle plain climbing.outermost climbing.parts climbing.pending
      climbing.apart fun some => (climbing.begun some).append _
  | closeEmpty | close | separate | apply => simp [Token.isDelimiter] at plain
  | @binary token operand op precedence stands known =>
    obtain ⟨climbs, atom⟩ := climbing.operand operand stands
    obtain ⟨ascends, waits, reduced, notLooser⟩ := @reduce_climbs table precedence _ _
      climbing.pending climbs (fits_of_rank? atom s.pending) (by simp [atom])
    have kept := tokens_reduce precedence s.pending operand.expr
    have current : State.current ⟨s.groups, s.parts,
        .binary (reduce precedence s.pending operand.expr).2 op precedence ::
          (reduce precedence s.pending operand.expr).1, none⟩ = s.current ++ [op.token] := by
      simp [State.current, Pending.tokens, stands, ← kept]
    refine ⟨climbing.outermost, climbing.parts, ?_, by simp, climbing.apart, fun some => ?_⟩
    · exact .binary (binary?_eq_some.mp known).2 reduced notLooser waits ascends
    · exact current ▸ (climbing.begun some).append _
  | @beside token operand next stands ends starts =>
    obtain ⟨climbs, atom⟩ := climbing.operand operand stands
    have part := reduceAll_climbs climbing.pending climbs (fits_of_rank? atom s.pending)
    have read : (reduceAll s.pending operand.expr).tokens = s.current := by
      simp [tokens_reduceAll, State.current, stands]
    refine starts.climbing rfl plain climbing.outermost ?_ .nil ?_ fun _ => ?_
    · simpa using ⟨part, climbing.parts⟩
    · -- Only the first part of all need not start apart from what stands in front of it.
      cases first : s.parts with
      | nil => simp
      | cons e rest =>
        have some : s.parts.reverse ≠ [] := by simp [first]
        have begun := climbing.begun (by simp [first])
        have apart := climbing.apart
        simp only [← first, List.reverse_cons, List.tail_append_of_ne_nil some, List.mem_append,
          List.mem_singleton]
        rintro part (before | rfl)
        · exact apart part before
        · exact read ▸ begun
    · exact ⟨token.symbol, [], rfl, (binary?_symbol table token).trans ends⟩

private theorem initial_climbing (table : OperatorTable) : initial.Climbing table :=
  ⟨rfl, nofun, .nil, nofun, nofun, absurd rfl⟩

private theorem finish_climbs {e : Expr} (climbing : s.Climbing table)
    (finished : s.finish = .ok e) :
    ∃ parts, e = .ofParts parts ∧ (∀ part ∈ parts, part.Climbs table) ∧
      ∀ part ∈ parts.tail, StartsPart table part.tokens := by
  unfold State.finish at finished
  split at finished
  · -- The part at hand is closed as if one more began behind it.
    rename_i operand stands closed
    obtain rfl := Except.ok.inj finished
    have behind : Moves table s (.name "") ⟨s.groups, reduceAll s.pending operand.expr :: s.parts, [],
        some (.name "")⟩ := .beside stands rfl (.operand rfl)
    have next := behind.climbing rfl climbing
    exact ⟨_, rfl, fun part member => next.parts part (List.mem_reverse.mp member), next.apart⟩
  · simp at finished
  · split at finished
    · obtain rfl := Except.ok.inj finished
      exact ⟨_, rfl, fun part member => climbing.parts part (List.mem_reverse.mp member),
        climbing.apart⟩
    · simp at finished

end Grammar

open Grammar

/-- Without parentheses and commas a query is its parts side by side, read one after the other. Each
of them is the tree that the precedences ask for, and none but the first starts with a token that
could go on with the part in front of it. -/
theorem parse_climbs {table : OperatorTable} {cs : List Char} {e : Expr} {tokens : List Token}
    (parsed : parse table cs = .ok e) (read : tokenize cs = .ok tokens)
    (flat : ∀ token ∈ tokens, token.isDelimiter = false) :
    ∃ parts, e = .ofParts parts ∧ tokens.map Token.symbol = parts.flatMap Expr.tokens ∧
      (∀ part ∈ parts, part.Climbs table) ∧ ∀ part ∈ parts.tail, StartsPart table part.tokens := by
  obtain ⟨tokens', final, lexes, steps, finished⟩ := parse_iff.mp parsed
  obtain rfl : tokens' = tokens := by simpa [tokenize_iff.mpr lexes] using read
  have climbing : final.Climbing table :=
    run_induction steps (initial_climbing table) fun member moves => moves.climbing (flat _ member)
  obtain ⟨parts, rfl, climbs, apart⟩ := finish_climbs climbing finished
  refine ⟨parts, rfl, ?_, climbs, apart⟩
  have kept := run_tokens steps
  rw [← finish_tokens finished, Expr.tokens_ofParts] at kept
  have all : tokens'.filter (fun token => !token.isDelimiter) = tokens' := by
    simpa [List.filter_eq_self] using flat
  simpa [initial, State.tokens, State.current, Token.substance, all] using kept.symm

/-- A table in which OR binds tightest of all, equality loosest, and a minus is only a sign. -/
def OperatorTable.signsOnly : OperatorTable :=
  ((OperatorTable.empty.addBinary .or 255).addBinary .equal 0).addUnary .negate

theorem parse_climbs_signsOnly :
    let cs := "a == -b OR c = d -e".toList
    let e : Expr := .all [.binary .equal (.binary .equal (.name "a")
      (.binary .or (.unary .negate (.name "b")) (.name "c"))) (.name "d"), .unary .negate (.name "e")]
    let tokens : List Token := [.name "a", .doubleEqual, .minus, .name "b", .or, .name "c", .equal,
      .name "d", .minus, .name "e"]
    (parse .signsOnly cs = .ok e ∧ tokenize cs = .ok tokens ∧
        ∀ token ∈ tokens, token.isDelimiter = false) ∧
      ∃ parts, e = .ofParts parts ∧ tokens.map Token.symbol = parts.flatMap Expr.tokens ∧
        (∀ part ∈ parts, part.Climbs .signsOnly) ∧
          ∀ part ∈ parts.tail, StartsPart .signsOnly part.tokens := by
  intro cs e tokens
  have read : tokenize cs = .ok tokens := by decide +kernel
  have parsed : parse .signsOnly cs = .ok e :=
    parse_iff.mpr ⟨_, _, tokenize_iff.mp read, rfl, rfl⟩
  have flat : ∀ token ∈ tokens, token.isDelimiter = false := by decide
  exact ⟨⟨parsed, read, flat⟩, parse_climbs parsed read flat⟩

end PullQuery.Query
