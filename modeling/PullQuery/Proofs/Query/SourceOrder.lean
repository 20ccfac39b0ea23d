import PullQuery.Proofs.Query.Moves
import PullQuery.Proofs.Query.Printer

/-! The parser loses no token and moves none. A tree read from left to right gives the tokens of its
text, parentheses and commas apart, because every state of the parser holds the tokens that led to it
in their order. -/
namespace PullQuery.Query

def Token.isDelimiter : Token → Bool
  | openParen | closeParen | comma => true
  | _ => false

def Token.symbol : Token → Token
  | doubleEqual => equal
  | lessGreater => notEqual
  | token => token

/-- The tokens that a tree has something of, with one spelling for each operator. -/
def Token.substance (tokens : List Token) : List Token :=
  (tokens.filter fun token => !token.isDelimiter).map Token.symbol

namespace Expr

mutual

def tokens : Expr → List Token
  | integer n => [.integer n]
  | float x => [.float x]
  | text s => [.text s]
  | boolean b => [.boolean b]
  | null => [.null]
  | name s => [.name s]
  | unary op e => op.token :: tokens e
  | binary op left right => tokens left ++ op.token :: tokens right
  | list items => tokensOfAll items
  | call function arguments => .name function :: tokensOfAll arguments
  | all parts => tokensOfAll parts

def tokensOfAll : List Expr → List Token
  | [] => []
  | e :: rest => tokens e ++ tokensOfAll rest

end

theorem tokensOfAll_eq (items : List Expr) : tokensOfAll items = items.flatMap tokens := by
  induction items with
  | nil => rfl
  | cons e rest ih => rw [tokensOfAll, ih, List.flatMap_cons]

theorem tokens_splice (e : Expr) : e.splice.flatMap tokens = e.tokens := by
  cases e <;> simp [splice, tokens, tokensOfAll_eq]

private theorem tokens_spliced (items : List Expr) :
    (items.flatMap splice).flatMap tokens = items.flatMap tokens := by
  rw [List.flatMap_assoc]
  simp only [tokens_splice]

theorem tokens_ofParts (parts : List Expr) : (ofParts parts).tokens = parts.flatMap tokens := by
  match parts with
  | [] | _ :: _ :: _ => simp [ofParts, tokens, tokensOfAll_eq]
  | [e] => simp [ofParts]

end Expr

namespace Grammar

def Pending.tokens : Pending → List Token
  | unary op => [op.token]
  | binary left op _ => left.tokens ++ [op.token]

def State.current (s : State) : List Token :=
  s.pending.reverse.flatMap Pending.tokens ++ s.operand.toList.flatMap (·.expr.tokens)

def Group.tokens (group : Group) : List Token :=
  group.parts.reverse.flatMap Expr.tokens ++ group.pending.reverse.flatMap Pending.tokens ++
    group.function.toList.map Token.name ++ group.items.reverse.flatMap Expr.tokens

/-- Everything that was read, from the outermost group to the part at hand. -/
def State.tokens (s : State) : List Token :=
  s.groups.reverse.flatMap Group.tokens ++ s.parts.reverse.flatMap Expr.tokens ++ s.current

theorem tokens_reduceAll (pending : List Pending) (e : Expr) :
    (reduceAll pending e).tokens = pending.reverse.flatMap Pending.tokens ++ e.tokens := by
  induction pending generalizing e with
  | nil => rfl
  | cons operator rest ih =>
    cases operator <;> simp [reduceAll, ih, Expr.tokens, Pending.tokens]

theorem tokens_reduce (precedence : Nat) (pending : List Pending) (e : Expr) :
    (reduce precedence pending e).1.reverse.flatMap Pending.tokens ++
        (reduce precedence pending e).2.tokens =
      pending.reverse.flatMap Pending.tokens ++ e.tokens := by
  induction pending generalizing e with
  | nil => rfl
  | cons operator rest ih =>
    cases operator with
    | unary op => simp [reduce, ih, Expr.tokens, Pending.tokens]
    | binary left op own =>
      rw [reduce]
      split
      · simp [ih, Expr.tokens, Pending.tokens]
      · rfl

private theorem tokens_run (s : State) (e : Expr) :
    (s.run e).tokens = s.parts.reverse.flatMap Expr.tokens ++
      (s.pending.reverse.flatMap Pending.tokens ++ e.tokens) := by
  simp [State.run, Expr.tokens_ofParts, tokens_reduceAll]

private theorem tokens_close (group : Group) (items : List Expr) :
    (group.close items).tokens =
      group.function.toList.map Token.name ++ items.flatMap Expr.tokens := by
  unfold Group.close
  cases group.function with
  | some function => simp [Expr.tokens, Expr.tokensOfAll_eq, Expr.tokens_spliced]
  | none =>
    match items with
    | [e] => simp
    | [] | _ :: _ :: _ => simp [Expr.ofItems, Expr.tokens, Expr.tokensOfAll_eq, Expr.tokens_splice,
        Expr.tokens_spliced]

variable {table : OperatorTable} {s next : State} {token : Token}

theorem binary?_eq_some {op : BinaryOp} {precedence : Nat} :
    table.binary? token = some (op, precedence) ↔
      BinaryOp.ofToken? token = some op ∧ table.precedence op = some precedence := by
  simp [OperatorTable.binary?, Option.bind_eq_some_iff]

private theorem token_of_binary? {op : BinaryOp} {precedence : Nat}
    (known : table.binary? token = some (op, precedence)) :
    op.token = token.symbol ∧ token.isDelimiter = false := by
  have spelled := (binary?_eq_some.mp known).1
  cases token <;> simp [BinaryOp.ofToken?] at spelled <;> obtain rfl := spelled <;> exact ⟨rfl, rfl⟩

theorem token_of_unary? {op : UnaryOp} (known : table.unary? token = some op) :
    op.token = token.symbol ∧ token.isDelimiter = false := by
  have spelled := (Option.filter_eq_some_iff.mp known).1
  cases token <;> simp [UnaryOp.ofToken?] at spelled <;> obtain rfl := spelled <;> exact ⟨rfl, rfl⟩

theorem token_of_operand {operand : Operand} (leaf : Operand.ofToken? token = some operand) :
    operand.expr.tokens = [token.symbol] ∧ token.isDelimiter = false := by
  cases token <;> simp [Operand.ofToken?] at leaf <;> obtain rfl := leaf <;> exact ⟨rfl, rfl⟩

private theorem Starts.tokens (starts : Starts table s token next) (idle : s.operand = none) :
    next.tokens = s.tokens ++ Token.substance [token] := by
  cases starts with
  | operand leaf =>
    obtain ⟨read, plain⟩ := token_of_operand leaf
    simp [State.tokens, State.current, Token.substance, idle, read, plain]
  | unary known =>
    obtain ⟨read, plain⟩ := token_of_unary? known
    simp [State.tokens, State.current, Token.substance, idle, read, plain, Pending.tokens]
  | openParen =>
    simp [State.tokens, State.current, State.opened, Group.tokens, Token.substance,
      Token.isDelimiter, idle]

/-- Every move keeps what was read and puts the token behind it. -/
theorem Moves.tokens (moves : Moves table s token next) :
    next.tokens = s.tokens ++ Token.substance [token] := by
  cases moves with
  | start idle starts => exact starts.tokens idle
  | closeEmpty idle inside parts pending items =>
    simp [State.tokens, State.current, State.closed, Group.tokens, Token.substance,
      Token.isDelimiter, Operand.expr, tokens_close, idle, inside, parts, pending, items]
  | close stands inside =>
    simp [State.tokens, State.current, State.closed, Group.tokens, Token.substance,
      Token.isDelimiter, Operand.expr, tokens_close, tokens_run, stands, inside]
  | separate stands inside =>
    simp [State.tokens, State.current, Group.tokens, Token.substance, Token.isDelimiter,
      tokens_run, stands, inside]
  | apply stands =>
    simp [State.tokens, State.current, State.opened, Group.tokens, Token.substance,
      Token.isDelimiter, Operand.expr, Expr.tokens, stands]
  | @binary token operand op precedence stands known =>
    obtain ⟨read, plain⟩ := token_of_binary? known
    have kept := tokens_reduce precedence s.pending operand.expr
    simp [State.tokens, State.current, Token.substance, Pending.tokens, stands, read, plain,
      ← kept]
  | beside stands ends starts =>
    rw [starts.tokens rfl]
    simp [State.tokens, State.current, tokens_reduceAll, stands]

theorem run_tokens {final : State} {tokens : List Token}
    (steps : run table s tokens = some final) :
    final.tokens = s.tokens ++ Token.substance tokens := by
  induction tokens generalizing s with
  | nil =>
    obtain rfl := Option.some.inj steps
    simp [Token.substance]
  | cons token tokens ih =>
    obtain ⟨next, step, behind⟩ := Option.bind_eq_some_iff.mp steps
    rw [ih behind, (moves_of_step? step).tokens, List.append_assoc]
    simp [Token.substance, List.filter_cons]
    split <;> rfl

theorem finish_tokens {e : Expr} (finished : s.finish = .ok e) : e.tokens = s.tokens := by
  unfold State.finish at finished
  split at finished
  · rename_i operand stands closed
    obtain rfl := Except.ok.inj finished
    simp [State.tokens, State.current, tokens_run, stands, closed]
  · simp at finished
  · rename_i idle
    split at finished
    · rename_i ends
      obtain rfl := Except.ok.inj finished
      have outermost := List.isEmpty_iff.mp ends.1
      have settled := List.isEmpty_iff.mp ends.2
      simp [State.tokens, State.current, Expr.tokens_ofParts, idle, outermost, settled]
    · simp at finished

end Grammar

open Grammar

/-- The whole text is read, and the tree of it holds every literal, name and operator of the text once
and in the same order. -/
theorem parse_keeps_order {table : OperatorTable} {cs : List Char} {e : Expr}
    (parsed : parse table cs = .ok e) :
    ∃ tokens, tokenize cs = .ok tokens ∧ Token.substance tokens = e.tokens := by
  obtain ⟨tokens, final, lexes, steps, finished⟩ := parse_iff.mp parsed
  refine ⟨tokens, tokenize_iff.mpr lexes, ?_⟩
  have read := run_tokens steps
  rw [finish_tokens finished, read]
  simp [initial, State.tokens, State.current]

theorem parse_keeps_order_spliced :
    let cs := "state == OPEN f(a, (1, 'x'), -b c) <> ((2), ())".toList
    let e : Expr := .all [.binary .equal (.name "state") (.name "OPEN"),
      .binary .notEqual (.call "f" [.name "a", .integer 1, .text "x",
        .all [.unary .negate (.name "b"), .name "c"]]) (.list [.integer 2])]
    parse .standard cs = .ok e ∧
      ∃ tokens, tokenize cs = .ok tokens ∧ Token.substance tokens = e.tokens := by
  intro cs e
  have read : tokenize cs = .ok [.name "state", .doubleEqual, .name "OPEN", .name "f", .openParen,
      .name "a", .comma, .openParen, .integer 1, .comma, .text "x", .closeParen, .comma, .minus,
      .name "b", .name "c", .closeParen, .lessGreater, .openParen, .openParen, .integer 2,
      .closeParen, .comma, .openParen, .closeParen, .closeParen] := by decide +kernel
  have parsed : parse .standard cs = .ok e := parse_iff.mpr ⟨_, _, tokenize_iff.mp read, rfl, rfl⟩
  exact ⟨parsed, parse_keeps_order parsed⟩

end PullQuery.Query
