import PullQuery.Proofs.Query.Parsing

/-! The parser does not look into texts. Other texts in the tokens of a query give the same tree with
these texts in it, because every step of the parser treats the text of a token as an atom. -/
namespace PullQuery.Query

def Token.mapText (f : String → String) : Token → Token
  | text s => text (f s)
  | token => token

namespace Expr

mutual

def mapText (f : String → String) : Expr → Expr
  | text s => text (f s)
  | unary op e => unary op (mapText f e)
  | binary op left right => binary op (mapText f left) (mapText f right)
  | list items => list (mapTexts f items)
  | call function arguments => call function (mapTexts f arguments)
  | all parts => all (mapTexts f parts)
  | e => e

def mapTexts (f : String → String) : List Expr → List Expr
  | [] => []
  | e :: rest => mapText f e :: mapTexts f rest

end

theorem mapTexts_eq (f : String → String) (items : List Expr) :
    mapTexts f items = items.map (mapText f) := by
  induction items with
  | nil => rfl
  | cons e rest ih => rw [mapTexts, ih, List.map_cons]

private theorem splice_mapText (f : String → String) (e : Expr) :
    (e.mapText f).splice = e.splice.map (mapText f) := by
  cases e <;> simp [mapText, splice, mapTexts_eq]

theorem flatMap_splice_mapText (f : String → String) (items : List Expr) :
    (items.map (mapText f)).flatMap splice = (items.flatMap splice).map (mapText f) := by
  induction items with
  | nil => rfl
  | cons e rest ih => simp [splice_mapText, ih]

private theorem ofItems_mapText (f : String → String) (items : List Expr) :
    ofItems (items.map (mapText f)) = (ofItems items).mapText f := by
  rw [ofItems, flatMap_splice_mapText, ofItems, mapText, mapTexts_eq]

theorem ofParts_mapText (f : String → String) (parts : List Expr) :
    ofParts (parts.map (mapText f)) = (ofParts parts).mapText f := by
  match parts with
  | [] => rfl
  | [e] => rfl
  | e :: g :: rest => simp [ofParts, mapText, mapTexts_eq]

end Expr

namespace Grammar

def Pending.mapText (f : String → String) : Pending → Pending
  | unary op => unary op
  | binary left op own => binary (left.mapText f) op own

def Operand.mapText (f : String → String) : Operand → Operand
  | name s => name s
  | value e => value (e.mapText f)

def Group.mapText (f : String → String) (group : Group) : Group :=
  ⟨group.function, group.items.map (Expr.mapText f), group.parts.map (Expr.mapText f),
    group.pending.map (Pending.mapText f)⟩

def State.mapText (f : String → String) (s : State) : State :=
  ⟨s.groups.map (Group.mapText f), s.parts.map (Expr.mapText f),
    s.pending.map (Pending.mapText f), s.operand.map (Operand.mapText f)⟩

variable (f : String → String)

theorem Operand.expr_mapText (operand : Operand) :
    (operand.mapText f).expr = operand.expr.mapText f := by
  cases operand <;> rfl

private theorem reduce_mapText (precedence : Nat) (pending : List Pending) (e : Expr) :
    reduce precedence (pending.map (Pending.mapText f)) (e.mapText f) =
      ((reduce precedence pending e).1.map (Pending.mapText f),
        (reduce precedence pending e).2.mapText f) := by
  induction pending generalizing e with
  | nil => rfl
  | cons operator pending ih =>
    cases operator with
    | unary op => exact ih (.unary op e)
    | binary left op own =>
      simp only [List.map_cons, Pending.mapText, reduce]
      split
      · exact ih (.binary op left e)
      · rfl

private theorem reduceAll_mapText (pending : List Pending) (e : Expr) :
    reduceAll (pending.map (Pending.mapText f)) (e.mapText f) =
      (reduceAll pending e).mapText f := by
  induction pending generalizing e with
  | nil => rfl
  | cons operator pending ih =>
    cases operator with
    | unary op => exact ih (.unary op e)
    | binary left op own => exact ih (.binary op left e)

private theorem Group.close_mapText (group : Group) (items : List Expr) :
    (group.mapText f).close (items.map (Expr.mapText f)) = (group.close items).mapText f := by
  unfold Group.close Group.mapText
  cases group.function with
  | some function => simp [Expr.mapText, Expr.mapTexts_eq, Expr.flatMap_splice_mapText]
  | none =>
    match items with
    | [] => exact Expr.ofItems_mapText f []
    | [e] => rfl
    | e :: g :: rest => exact Expr.ofItems_mapText f (e :: g :: rest)

namespace State

theorem run_mapText (s : State) (e : Expr) :
    (s.mapText f).run (e.mapText f) = (s.run e).mapText f := by
  rw [State.run, State.run, ← Expr.ofParts_mapText]
  simp [mapText, reduceAll_mapText]

theorem closed_mapText (group : Group) (outer : List Group) (items : List Expr) :
    closed (group.mapText f) (outer.map (Group.mapText f)) (items.map (Expr.mapText f)) =
      (closed group outer items).mapText f := by
  rw [closed, Group.close_mapText]
  rfl

variable (table : OperatorTable)

theorem start?_mapText (s : State) (token : Token) :
    (s.mapText f).start? table (token.mapText f) = (s.start? table token).map (mapText f) := by
  cases token with
  | integer | float | text | boolean | null | name | openParen => rfl
  | _ =>
    unfold start?
    simp only [Token.mapText, Option.map_map]
    rfl

private theorem closeEmpty?_mapText (s : State) :
    (s.mapText f).closeEmpty? = s.closeEmpty?.map (mapText f) := by
  obtain ⟨groups, parts, pending, operand⟩ := s
  match groups, parts, pending with
  | [], _, _ => rfl
  | _ :: _, _ :: _, _ => rfl
  | _ :: _, [], _ :: _ => rfl
  | group :: outer, [], [] =>
    have empty : (group.mapText f).items.isEmpty = group.items.isEmpty := List.isEmpty_map
    have closes := closed_mapText f group outer []
    simp only [closeEmpty?, mapText, List.map_cons, List.map_nil, empty] at closes ⊢
    split
    · exact congrArg some closes
    · rfl

private theorem beside_mapText (s : State) (operand : Operand) (token : Token) :
    start? table ⟨(s.mapText f).groups,
        reduceAll (s.mapText f).pending (operand.mapText f).expr :: (s.mapText f).parts, [], none⟩
        (token.mapText f) =
      (start? table ⟨s.groups, reduceAll s.pending operand.expr :: s.parts, [], none⟩ token).map
        (mapText f) := by
  rw [← start?_mapText]
  simp [mapText, Operand.expr_mapText, reduceAll_mapText]

private theorem continue?_mapText (s : State) (operand : Operand) (token : Token) :
    (s.mapText f).continue? table (operand.mapText f) (token.mapText f) =
      (s.continue? table operand token).map (mapText f) := by
  have beside := beside_mapText f table s operand token
  have written := run_mapText f s operand.expr
  rw [← Operand.expr_mapText] at written
  cases token with
  | closeParen =>
    cases held : s.groups with
    | nil => simp [continue?, Token.mapText, mapText, held]
    | cons group outer =>
      have groups : (s.mapText f).groups = group.mapText f :: outer.map (Group.mapText f) := by
        simp [mapText, held]
      have closes := closed_mapText f group outer (s.run operand.expr :: group.items).reverse
      rw [List.map_reverse, List.map_cons, ← written] at closes
      simp only [continue?, Token.mapText, groups, held]
      exact congrArg some closes
  | comma =>
    cases held : s.groups with
    | nil => simp [continue?, Token.mapText, mapText, held]
    | cons group outer =>
      have groups : (s.mapText f).groups = group.mapText f :: outer.map (Group.mapText f) := by
        simp [mapText, held]
      simp only [continue?, Token.mapText, groups, held, written]
      rfl
  | openParen =>
    cases operand with
    | name function => simp [continue?, Token.mapText, Operand.mapText, opened, mapText, Group.mapText]
    | value e => exact beside
  | text t => exact beside
  | _ =>
    simp only [continue?, Token.mapText] at beside ⊢
    rw [beside]
    split
    · rename_i op precedence found
      have reduced := reduce_mapText f precedence s.pending operand.expr
      rw [← Operand.expr_mapText] at reduced
      simp only [mapText, reduced, Option.map_some]
      rfl
    · rfl

/-- Each step of the parser does the same whatever the texts are. -/
theorem step?_mapText (s : State) (token : Token) :
    (s.mapText f).step? table (token.mapText f) = (s.step? table token).map (mapText f) := by
  unfold step?
  cases held : s.operand with
  | some operand =>
    have whole := continue?_mapText f table s operand token
    simpa [mapText, held] using whole
  | none =>
    have closes : token.mapText f = .closeParen ↔ token = .closeParen := by
      cases token <;> simp [Token.mapText]
    simp only [show (s.mapText f).operand = none by simp [mapText, held], closes]
    split
    · exact closeEmpty?_mapText f s
    · exact start?_mapText f table s token

theorem finish_mapText (s : State) :
    (s.mapText f).finish = s.finish.map (Expr.mapText f) := by
  obtain ⟨groups, parts, pending, operand⟩ := s
  cases operand with
  | some operand =>
    cases groups with
    | nil =>
      have written := run_mapText f ⟨[], parts, pending, some operand⟩ operand.expr
      rw [← Operand.expr_mapText] at written
      exact congrArg Except.ok written
    | cons group outer => rfl
  | none =>
    have whole := Expr.ofParts_mapText f parts.reverse
    simp only [finish, mapText, Option.map_none, List.isEmpty_map, ← List.map_reverse, whole]
    split <;> rfl

end State

theorem run_mapText (table : OperatorTable) (s : State) (tokens : List Token) :
    run table (s.mapText f) (tokens.map (Token.mapText f)) =
      (run table s tokens).map (State.mapText f) := by
  induction tokens generalizing s with
  | nil => rfl
  | cons token tokens ih =>
    rw [List.map_cons, run_cons, run_cons, State.step?_mapText]
    cases s.step? table token with
    | none => rfl
    | some next => exact ih next

end Grammar
end PullQuery.Query
