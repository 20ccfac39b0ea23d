import PullQuery.Query.Lexeme
import PullQuery.Query.Syntax

/-! From tokens to trees, one token at a time. The parser keeps the open parentheses, the finished
parts of the innermost one, the operators that wait for their right operand, and the operand at
hand. A token that cannot stand where it does stops it, and so does a text that ends too early. -/
namespace PullQuery.Query

inductive ParseFault where
  | lexical (fault : LexFault)
  | unexpected (token : Token)
  | unexpectedEnd
  | unclosed
  deriving DecidableEq

structure ParseError where
  fault : ParseFault
  offset : Nat
  deriving DecidableEq

namespace ParseError

def ofLexError (error : LexError) : ParseError := ⟨.lexical error.fault, error.offset⟩

def message (error : ParseError) : String :=
  let offset := error.offset
  match error.fault with
  | .lexical fault =>
    let reason := LexError.message ⟨fault, offset⟩
    s!"{reason} at position {offset}"
  | .unexpected token =>
    let found := token.display
    s!"Unexpected token `{found}` at position {offset}"
  | .unexpectedEnd => s!"Unexpected end of input at position {offset}"
  | .unclosed => s!"Expected `)`, found end of input at position {offset}"

end ParseError

namespace Grammar

inductive Pending where
  | unary (op : UnaryOp)
  | binary (left : Expr) (op : BinaryOp) (precedence : Nat)

/-- The operand at hand. A name that was just read may still turn out to be a function. -/
inductive Operand where
  | name (s : String)
  | value (e : Expr)

def Operand.expr : Operand → Expr
  | name s => .name s
  | value e => e

/-- An open parenthesis: the function whose arguments it holds, if any, its finished items with
the last one first, and the parts and operators that it interrupts. -/
structure Group where
  function : Option String
  items : List Expr
  parts : List Expr
  pending : List Pending

/-- Open groups, innermost first; finished parts, last first; waiting operators, innermost first;
and the operand at hand, none where one is expected. -/
structure State where
  groups : List Group
  parts : List Expr
  pending : List Pending
  operand : Option Operand

def initial : State := ⟨[], [], [], none⟩

/-- Applies the waiting operators that bind at least as tightly as `precedence` to the operand.
Unary operators bind tightest. -/
def reduce (precedence : Nat) : List Pending → Expr → List Pending × Expr
  | [], e => ([], e)
  | .unary op :: rest, e => reduce precedence rest (.unary op e)
  | .binary left op own :: rest, e =>
    if precedence ≤ own then reduce precedence rest (.binary op left e)
    else (.binary left op own :: rest, e)

def reduceAll : List Pending → Expr → Expr
  | [], e => e
  | .unary op :: rest, e => reduceAll rest (.unary op e)
  | .binary left op _ :: rest, e => reduceAll rest (.binary op left e)

def Group.close (group : Group) (items : List Expr) : Expr :=
  match group.function with
  | some function => .call function (items.flatMap Expr.splice)
  | none =>
    match items with
    | [e] => e
    | items => .ofItems items

namespace State

def opened (s : State) (function : Option String) : State :=
  ⟨⟨function, [], s.parts, s.pending⟩ :: s.groups, [], [], none⟩

def closed (group : Group) (outer : List Group) (items : List Expr) : State :=
  ⟨outer, group.parts, group.pending, some (.value (group.close items))⟩

/-- The expressions written so far since the last parenthesis or comma, with `e` the last. -/
def run (s : State) (e : Expr) : Expr := .ofParts (reduceAll s.pending e :: s.parts).reverse

/-- Where an operand is expected: literals and names are operands, and parentheses and unary
operators go in front of one. -/
def start? (table : OperatorTable) (s : State) : Token → Option State
  | .integer n => some { s with operand := some (.value (.integer n)) }
  | .float x => some { s with operand := some (.value (.float x)) }
  | .text t => some { s with operand := some (.value (.text t)) }
  | .boolean b => some { s with operand := some (.value (.boolean b)) }
  | .null => some { s with operand := some (.value .null) }
  | .name n => some { s with operand := some (.name n) }
  | .openParen => some (s.opened none)
  | token => (table.unary? token).map fun op => { s with pending := .unary op :: s.pending }

def closeEmpty? (s : State) : Option State :=
  match s.groups, s.parts, s.pending with
  | group :: outer, [], [] => if group.items.isEmpty then some (closed group outer []) else none
  | _, _, _ => none

/-- After an operand: operators take it as their left operand, parentheses and commas end what was
written, and anything else begins a new part beside it. -/
def continue? (table : OperatorTable) (s : State) (operand : Operand) (token : Token) :
    Option State :=
  let next : Option State :=
    start? table ⟨s.groups, reduceAll s.pending operand.expr :: s.parts, [], none⟩ token
  match token with
  | .closeParen =>
    match s.groups with
    | [] => none
    | group :: outer => some (closed group outer (s.run operand.expr :: group.items).reverse)
  | .comma =>
    match s.groups with
    | [] => none
    | group :: outer =>
      some ⟨{ group with items := s.run operand.expr :: group.items } :: outer, [], [], none⟩
  | .openParen =>
    match operand with
    | .name function => some ({ s with operand := none }.opened (some function))
    | .value _ => next
  | token =>
    match table.binary? token with
    | some (op, precedence) =>
      let (pending, left) := reduce precedence s.pending operand.expr
      some ⟨s.groups, s.parts, .binary left op precedence :: pending, none⟩
    | none => next

def step? (table : OperatorTable) (s : State) (token : Token) : Option State :=
  match s.operand with
  | some operand => s.continue? table operand token
  | none => if token = .closeParen then s.closeEmpty? else s.start? table token

/-- The tree of a text that ends here. Only the empty text has none of its parts. -/
def finish (s : State) : Except ParseFault Expr :=
  match s.operand, s.groups with
  | some operand, [] => .ok (s.run operand.expr)
  | some _, _ :: _ => .error .unclosed
  | none, _ =>
    if s.groups.isEmpty ∧ s.pending.isEmpty then .ok (.ofParts s.parts.reverse)
    else .error .unexpectedEnd

def isComplete (table : OperatorTable) (s : State) (token : Token) : Bool :=
  match s.operand, s.groups with
  | some (.name _), [] => token ≠ .openParen && (table.binary? token).isNone
  | some (.value _), [] => (table.binary? token).isNone
  | _, _ => false

end State

def parseFrom (table : OperatorTable) (ending : Except LexError Nat) (s : State) :
    List Lexeme → Except ParseError Expr
  | [] =>
    match ending with
    | .error error => .error (.ofLexError error)
    | .ok offset => s.finish.mapError (⟨·, offset⟩)
  | lexeme :: rest =>
    match s.step? table lexeme.token with
    | some next => parseFrom table ending next rest
    | none => .error ⟨.unexpected lexeme.token, lexeme.start⟩

def expressionFrom (table : OperatorTable) (ending : Except LexError Nat) (s : State) :
    List Lexeme → Except ParseError (Expr × List Lexeme)
  | [] =>
    match ending with
    | .error error => .error (.ofLexError error)
    | .ok offset => (s.finish.map (·, [])).mapError (⟨·, offset⟩)
  | lexeme :: rest =>
    if s.isComplete table lexeme.token then
      (s.finish.map (·, lexeme :: rest)).mapError (⟨·, lexeme.start⟩)
    else
      match s.step? table lexeme.token with
      | some next => expressionFrom table ending next rest
      | none => .error ⟨.unexpected lexeme.token, lexeme.start⟩

end Grammar

def parse (table : OperatorTable) (cs : List Char) : Except ParseError Expr :=
  let stream := tokensOf cs
  Grammar.parseFrom table stream.ending Grammar.initial stream.lexemes

/-- The first expression of some tokens, and the tokens after it. -/
def parseFirst (table : OperatorTable) (stream : TokenStream) :
    Except ParseError (Expr × TokenStream) := do
  if stream.lexemes.isEmpty then
    match stream.ending with
    | .error error => throw (.ofLexError error)
    | .ok offset => throw ⟨.unexpectedEnd, offset⟩
  let (e, rest) ← Grammar.expressionFrom table stream.ending Grammar.initial stream.lexemes
  return (e, { stream with lexemes := rest })

end PullQuery.Query
