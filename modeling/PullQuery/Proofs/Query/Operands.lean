import PullQuery.Proofs.Query.Printer

/-! What the tokens of a written operand do to the parser. They bring it to a state that holds the
operand, together with operators that have yet to be applied; these bind at least as tightly as the
operand says, so whatever comes next applies exactly them. -/
namespace PullQuery.Query.Grammar

/-- The innermost waiting operator leaves what binds with the precedence alone. -/
def Waits (precedence : Nat) : List Pending → Prop
  | [] => True
  | .unary _ :: _ => False
  | .binary _ _ own :: _ => own < precedence

theorem Waits.mono {low high : Nat} {pending : List Pending} (waits : Waits low pending)
    (below : low ≤ high) : Waits high pending := by
  match pending, waits with
  | [], _ => trivial
  | .binary _ _ own :: _, waits => exact Nat.lt_of_lt_of_le waits below

theorem reduceAll_append (pending outer : List Pending) (e : Expr) :
    reduceAll (pending ++ outer) e = reduceAll outer (reduceAll pending e) := by
  induction pending generalizing e with
  | nil => rfl
  | cons operator pending ih => cases operator <;> exact ih _

theorem reduce_append {precedence : Nat} {pending outer : List Pending} (e : Expr)
    (tight : ∀ left op own, Pending.binary left op own ∈ pending → precedence ≤ own)
    (waits : Waits precedence outer) :
    reduce precedence (pending ++ outer) e = (outer, reduceAll pending e) := by
  induction pending generalizing e with
  | nil =>
    match outer, waits with
    | [], _ => rfl
    | .binary left op own :: outer, waits =>
      have loose : ¬ precedence ≤ own := Nat.not_le.mpr waits
      simp [reduce, reduceAll, loose]
  | cons operator pending ih =>
    have behind := fun e => ih e fun left op own member => tight left op own (.tail _ member)
    cases operator with
    | unary op => exact behind _
    | binary left op own =>
      rw [List.cons_append, reduce, if_pos (tight left op own (.head _)), behind, reduceAll]

/-- Where an operand is expected, the tokens lead to one that becomes `e`. What still waits inside
of it binds no looser than `bound`, and nothing does without a bound. -/
def Yields (table : OperatorTable) (bound : Option Nat) (e : Expr) (tokens : List Token) : Prop :=
  ∀ s : State, s.operand = none → (∀ p ∈ bound, Waits p s.pending) →
    ∃ pending operand,
      run table s tokens = some ⟨s.groups, s.parts, pending ++ s.pending, some operand⟩ ∧
      reduceAll pending operand.expr = e ∧
      ∀ left op own, Pending.binary left op own ∈ pending → ∃ p ∈ bound, p ≤ own

/-- The tokens read as `e` between two parentheses or commas, behind some finished parts. -/
def Fills (table : OperatorTable) (parts : List Expr) (e : Expr) (tokens : List Token) : Prop :=
  ∀ groups : List Group, ∃ s operand, run table ⟨groups, parts, [], none⟩ tokens = some s ∧
    s.groups = groups ∧ s.operand = some operand ∧ s.run operand.expr = e

def Lists (table : OperatorTable) (items : List Expr) (tokens : List Token) : Prop :=
  ∀ (group : Group) (outer : List Group), (items = [] → group.items = []) →
    run table ⟨group :: outer, [], [], none⟩ (tokens ++ [.closeParen]) =
      some (State.closed group outer (group.items.reverse ++ items))

variable {table : OperatorTable} {bound : Option Nat} {e : Expr} {tokens : List Token}

theorem Yields.fills (yields : Yields table bound e tokens) : Fills table [] e tokens := by
  intro groups
  obtain ⟨pending, operand, steps, whole, -⟩ :=
    yields ⟨groups, [], [], none⟩ rfl fun _ _ => trivial
  exact ⟨_, operand, steps, rfl, rfl, by simpa [State.run, Expr.ofParts] using whole⟩

theorem Yields.leaf {token : Token} {operand : Operand}
    (step : ∀ s : State, s.start? table token = some { s with operand := some operand })
    (other : token ≠ .closeParen) : Yields table none operand.expr [token] := by
  rintro ⟨groups, parts, pending, _⟩ rfl -
  exact ⟨[], operand, by simp [State.step?, other, step], rfl, by simp⟩

theorem Yields.unary {op : UnaryOp} (known : op ∈ table.unary)
    (yields : Yields table none e tokens) :
    Yields table none (.unary op e) (op.token :: tokens) := by
  rintro ⟨groups, parts, outer, _⟩ rfl -
  obtain ⟨pending, operand, steps, rfl, tight⟩ :=
    yields ⟨groups, parts, .unary op :: outer, none⟩ rfl (by simp)
  have first : State.step? table ⟨groups, parts, outer, none⟩ op.token =
      some ⟨groups, parts, .unary op :: outer, none⟩ := by
    have found : table.unary? op.token = some op := by
      cases op <;> simp [OperatorTable.unary?, UnaryOp.ofToken?, UnaryOp.token, known]
    calc State.step? table ⟨groups, parts, outer, none⟩ op.token
        = (table.unary? op.token).map fun op => ⟨groups, parts, .unary op :: outer, none⟩ := by
          cases op <;> rfl
      _ = some ⟨groups, parts, .unary op :: outer, none⟩ := by rw [found, Option.map_some]
  refine ⟨pending ++ [.unary op], operand, ?_, ?_, ?_⟩
  · simp [first, steps]
  · rw [reduceAll_append]
    rfl
  · simpa using tight

theorem step_binary {op : BinaryOp} {p : Nat} (known : table.precedence op = some p)
    (groups : List Group) (parts : List Expr) {pending outer : List Pending} (operand : Operand)
    (tight : ∀ left other own, Pending.binary left other own ∈ pending → p ≤ own)
    (waits : Waits p outer) :
    State.step? table ⟨groups, parts, pending ++ outer, some operand⟩ op.token =
      some ⟨groups, parts, .binary (reduceAll pending operand.expr) op p :: outer, none⟩ := by
  have found : table.binary? op.token = some (op, p) := by
    cases op <;> simp [OperatorTable.binary?, BinaryOp.token, BinaryOp.ofToken?, known]
  have reduced := reduce_append operand.expr tight waits
  cases op <;> simp only [State.step?, State.continue?, BinaryOp.token] at found ⊢ <;>
    rw [found] <;> simp only [reduced]

theorem Yields.binary {op : BinaryOp} {p : Nat} (known : table.precedence op = some p)
    {left right : Expr} {before behind : Option Nat} {others : List Token}
    (first : Yields table before left tokens) (notLooser : ∀ q ∈ before, p ≤ q)
    (second : Yields table behind right others) (tighter : ∀ q ∈ behind, p < q) :
    Yields table (some p) (.binary op left right) (tokens ++ op.token :: others) := by
  rintro ⟨groups, parts, outer, _⟩ rfl waits
  have waits : Waits p outer := waits p rfl
  obtain ⟨pending, operand, steps, rfl, tight⟩ := first ⟨groups, parts, outer, none⟩ rfl
    fun q found => waits.mono (notLooser q found)
  have enough : ∀ left other own, Pending.binary left other own ∈ pending → p ≤ own := by
    intro left other own member
    obtain ⟨q, found, below⟩ := tight left other own member
    exact (notLooser q found).trans below
  have middle := step_binary known groups parts operand enough waits
  obtain ⟨inner, last, rest, rfl, own⟩ :=
    second ⟨groups, parts, .binary (reduceAll pending operand.expr) op p :: outer, none⟩ rfl tighter
  refine ⟨inner ++ [.binary (reduceAll pending operand.expr) op p], last, ?_, ?_, ?_⟩
  · simp only [run_append, steps, run_cons, Option.bind_some, middle, rest]
    simp
  · rw [reduceAll_append]
    rfl
  · intro left other own' member
    rcases List.mem_append.mp member with inside | outside
    · obtain ⟨q, found, below⟩ := own left other own' inside
      exact ⟨p, rfl, (tighter q found).le.trans below⟩
    · obtain ⟨-, -, rfl⟩ : left = _ ∧ other = op ∧ own' = p := by simpa using outside
      exact ⟨_, rfl, le_rfl⟩

theorem Lists.nil : Lists table [] [] := by
  intro group outer fresh
  simp [State.step?, State.closeEmpty?, fresh rfl, State.closed]

theorem Fills.single (fills : Fills table [] e tokens) : Lists table [e] tokens := by
  intro group outer _
  obtain ⟨s, operand, steps, inside, found, rfl⟩ := fills (group :: outer)
  rw [run_append, steps]
  simp [State.step?, State.continue?, found, inside]

theorem Fills.cons {items : List Expr} {others : List Token} (fills : Fills table [] e tokens)
    (some : items ≠ []) (lists : Lists table items others) :
    Lists table (e :: items) (tokens ++ .comma :: others) := by
  intro group outer _
  obtain ⟨s, operand, steps, inside, found, rfl⟩ := fills (group :: outer)
  have next := lists { group with items := s.run operand.expr :: group.items } outer
    (absurd · some)
  have comma : s.step? table .comma =
      .some ⟨{ group with items := s.run operand.expr :: group.items } :: outer, [], [], none⟩ := by
    simp [State.step?, State.continue?, found, inside]
  rw [List.append_assoc, run_append, steps, Option.bind_some, List.cons_append, run_cons, comma,
    Option.bind_some, next, List.reverse_cons, List.append_assoc]
  rfl

theorem Lists.group {items : List Expr} (lists : Lists table items tokens) (s : State)
    (start : s.operand = none) :
    run table s (.openParen :: (tokens ++ [.closeParen])) =
      some { s with operand := some (.value (Group.close ⟨none, [], s.parts, s.pending⟩ items)) } := by
  obtain ⟨groups, parts, pending, _⟩ := s
  obtain rfl : _ = none := start
  exact lists ⟨none, [], parts, pending⟩ groups fun _ => rfl

private theorem Lists.call {items : List Expr} (lists : Lists table items tokens)
    (function : String) (s : State) (start : s.operand = none) :
    run table s (.name function :: .openParen :: (tokens ++ [.closeParen])) =
      some { s with operand := some (.value (.call function (items.flatMap Expr.splice))) } := by
  obtain ⟨groups, parts, pending, _⟩ := s
  obtain rfl : _ = none := start
  exact lists ⟨some function, [], parts, pending⟩ groups fun _ => rfl

theorem Yields.group {items : List Expr} (lists : Lists table items tokens)
    (several : ∀ e, items ≠ [e]) :
    Yields table none (.ofItems items) (.openParen :: (tokens ++ [.closeParen])) := by
  intro s start _
  refine ⟨[], _, lists.group s start, ?_, by simp⟩
  match items with
  | [] => rfl
  | [e] => exact absurd rfl (several e)
  | _ :: _ :: _ => rfl

theorem Yields.call {items : List Expr} (lists : Lists table items tokens) (function : String) :
    Yields table none (.call function (items.flatMap Expr.splice))
      (.name function :: .openParen :: (tokens ++ [.closeParen])) := by
  intro s start _
  exact ⟨[], _, lists.call function s start, rfl, by simp⟩

theorem Fills.yields (fills : Fills table [] e tokens) :
    Yields table none e (.openParen :: (tokens ++ [.closeParen])) := by
  intro s start _
  exact ⟨[], _, fills.single.group s start, rfl, by simp⟩

theorem Fills.last (fills : Fills table [] e tokens) (parts : List Expr) :
    Fills table parts (.ofParts (e :: parts).reverse)
      (.openParen :: (tokens ++ [.closeParen])) := by
  intro groups
  exact ⟨_, _, fills.single.group ⟨groups, parts, [], none⟩ rfl, rfl, rfl, rfl⟩

theorem Fills.beside (fills : Fills table [] e tokens) {parts : List Expr} {whole : Expr}
    {others : List Token} (behind : Fills table (e :: parts) whole (.openParen :: others)) :
    Fills table parts whole
      (.openParen :: (tokens ++ [.closeParen]) ++ .openParen :: others) := by
  intro groups
  have first := fills.single.group ⟨groups, parts, [], none⟩ rfl
  obtain ⟨s, operand, steps, inside, found, made⟩ := behind groups
  refine ⟨s, operand, ?_, inside, found, made⟩
  rw [run_append, first]
  exact steps

end PullQuery.Query.Grammar
