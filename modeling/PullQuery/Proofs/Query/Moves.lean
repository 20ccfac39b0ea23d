import PullQuery.Proofs.Query.Parsing

/-! What a single token can do to the parser, one constructor for each way to go on. An invariant of
the parser is shown by cases over these moves, without a look into the functions of the step. -/
namespace PullQuery.Query.Grammar

def Operand.ofToken? : Token → Option Operand
  | .null => some (.value .null)
  | .boolean b => some (.value (.boolean b))
  | .integer n => some (.value (.integer n))
  | .float x => some (.value (.float x))
  | .text t => some (.value (.text t))
  | .name n => some (.name n)
  | _ => none

section Moves
variable (table : OperatorTable)

/-- A token where an operand is expected. -/
inductive Starts (s : State) : Token → State → Prop
  | operand {token : Token} {operand : Operand} (leaf : Operand.ofToken? token = some operand) :
      Starts s token { s with operand := some operand }
  | unary {token : Token} {op : UnaryOp} (known : table.unary? token = some op) :
      Starts s token { s with pending := .unary op :: s.pending }
  | openParen : Starts s .openParen (s.opened none)

/-- A token that can stand at all. -/
inductive Moves (s : State) : Token → State → Prop
  | start {token : Token} {next : State} (idle : s.operand = none)
      (starts : Starts table s token next) : Moves s token next
  | closeEmpty {group : Group} {outer : List Group} (idle : s.operand = none)
      (inside : s.groups = group :: outer) (parts : s.parts = []) (pending : s.pending = [])
      (items : group.items = []) : Moves s .closeParen (.closed group outer [])
  | close {operand : Operand} {group : Group} {outer : List Group}
      (stands : s.operand = some operand) (inside : s.groups = group :: outer) :
      Moves s .closeParen (.closed group outer (s.run operand.expr :: group.items).reverse)
  | separate {operand : Operand} {group : Group} {outer : List Group}
      (stands : s.operand = some operand) (inside : s.groups = group :: outer) :
      Moves s .comma
        ⟨{ group with items := s.run operand.expr :: group.items } :: outer, [], [], none⟩
  | apply {function : String} (stands : s.operand = some (.name function)) :
      Moves s .openParen ({ s with operand := none }.opened (some function))
  | binary {token : Token} {operand : Operand} {op : BinaryOp} {precedence : Nat}
      (stands : s.operand = some operand) (known : table.binary? token = some (op, precedence)) :
      Moves s token ⟨s.groups, s.parts,
        .binary (reduce precedence s.pending operand.expr).2 op precedence ::
          (reduce precedence s.pending operand.expr).1, none⟩
  | beside {token : Token} {operand : Operand} {next : State} (stands : s.operand = some operand)
      (ends : table.binary? token = none)
      (starts : Starts table ⟨s.groups, reduceAll s.pending operand.expr :: s.parts, [], none⟩
        token next) : Moves s token next

end Moves

variable {table : OperatorTable} {s next : State} {token : Token}

private theorem starts_of_start? (step : s.start? table token = some next) :
    Starts table s token next := by
  cases token with
  | integer | float | text | boolean | null | name =>
    obtain rfl := Option.some.inj step
    exact .operand rfl
  | openParen =>
    obtain rfl := Option.some.inj step
    exact .openParen
  | _ =>
    unfold State.start? at step
    obtain ⟨op, known, rfl⟩ := Option.map_eq_some_iff.mp step
    exact .unary known

private theorem moves_of_closeEmpty? (idle : s.operand = none) (step : s.closeEmpty? = some next) :
    Moves table s .closeParen next := by
  unfold State.closeEmpty? at step
  split at step
  · rename_i group outer inside parts pending
    split at step
    · rename_i items
      obtain rfl := Option.some.inj step
      exact .closeEmpty idle inside parts pending (List.isEmpty_iff.mp items)
    · simp at step
  · simp at step

private theorem moves_of_continue? {operand : Operand} (stands : s.operand = some operand)
    (step : s.continue? table operand token = some next) : Moves table s token next := by
  cases token with
  | closeParen =>
    cases inside : s.groups with
    | nil => simp [State.continue?, inside] at step
    | cons group outer =>
      obtain rfl : _ = next := by simpa [State.continue?, inside] using step
      simpa using Moves.close stands inside
  | comma =>
    cases inside : s.groups with
    | nil => simp [State.continue?, inside] at step
    | cons group outer =>
      obtain rfl : _ = next := by simpa [State.continue?, inside] using step
      exact .separate stands inside
  | openParen =>
    cases operand with
    | name function =>
      obtain rfl := Option.some.inj step
      exact .apply stands
    | value e => exact .beside stands rfl (starts_of_start? step)
  | _ =>
    simp only [State.continue?] at step
    split at step
    · rename_i op precedence known
      obtain rfl := Option.some.inj step
      exact .binary stands known
    · rename_i ends
      exact .beside stands ends (starts_of_start? step)

theorem moves_of_step? (step : s.step? table token = some next) : Moves table s token next := by
  unfold State.step? at step
  split at step
  · rename_i operand stands
    exact moves_of_continue? stands step
  · rename_i idle
    split at step
    · rename_i closes
      exact closes ▸ moves_of_closeEmpty? idle step
    · exact .start idle (starts_of_start? step)

/-- What holds at first and is kept by every move holds at the end of a run. -/
theorem run_induction {motive : State → Prop} {tokens : List Token} {final : State}
    (steps : run table s tokens = some final) (start : motive s)
    (move : ∀ {s next token}, token ∈ tokens → Moves table s token next → motive s → motive next) :
    motive final := by
  induction tokens generalizing s with
  | nil =>
    obtain rfl := Option.some.inj steps
    exact start
  | cons token tokens ih =>
    obtain ⟨next, step, behind⟩ := Option.bind_eq_some_iff.mp steps
    exact ih behind (move (.head _) (moves_of_step? step) start) fun member => move (.tail _ member)

end PullQuery.Query.Grammar
