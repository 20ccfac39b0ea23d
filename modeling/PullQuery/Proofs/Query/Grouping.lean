import PullQuery.Proofs.Query.Moves
import PullQuery.Proofs.Query.Operands

/-! Queries in parentheses. The parser never looks at the groups around the one it reads, so a query is
read between parentheses as it is read alone, whatever stands around them. -/
namespace PullQuery.Query.Grammar
variable {table : OperatorTable}

private def State.within (s : State) (outer : List Group) : State :=
  { s with groups := s.groups ++ outer }

variable (table) in
private theorem start?_within (s : State) (token : Token) (outer : List Group) :
    (s.within outer).start? table token = (s.start? table token).map (State.within · outer) := by
  cases token with
  | integer | float | text | boolean | null | name | openParen => rfl
  | _ =>
    unfold State.start?
    simp only [Option.map_map]
    rfl

private theorem closeEmpty?_within {s next : State} (outer : List Group)
    (step : s.closeEmpty? = some next) :
    (s.within outer).closeEmpty? = some (next.within outer) := by
  obtain ⟨groups, parts, pending, operand⟩ := s
  unfold State.closeEmpty? at step
  split at step
  · rename_i group behind inside none idle
    obtain ⟨rfl, rfl, rfl⟩ : groups = group :: behind ∧ parts = [] ∧ pending = [] :=
      ⟨inside, none, idle⟩
    split at step
    · rename_i empty
      obtain rfl := Option.some.inj step
      exact if_pos empty
    · simp at step
  · simp at step

private theorem continue?_within {s next : State} {operand : Operand} {token : Token}
    (outer : List Group) (step : s.continue? table operand token = some next) :
    (s.within outer).continue? table operand token = some (next.within outer) := by
  have beside {next : State}
      (step : State.start? table ⟨s.groups, reduceAll s.pending operand.expr :: s.parts, [], none⟩
        token = some next) :
      State.start? table ⟨s.groups ++ outer, reduceAll s.pending operand.expr :: s.parts, [], none⟩
        token = some (next.within outer) := by
    have framed := start?_within table
      ⟨s.groups, reduceAll s.pending operand.expr :: s.parts, [], none⟩ token outer
    rw [step] at framed
    exact framed
  obtain ⟨groups, parts, pending, _⟩ := s
  cases token with
  | closeParen | comma =>
    cases groups with
    | nil => simp [State.continue?] at step
    | cons group groups =>
      obtain rfl := Option.some.inj step
      rfl
  | openParen =>
    cases operand with
    | name function =>
      obtain rfl := Option.some.inj step
      rfl
    | value e => exact beside step
  | _ =>
    simp only [State.continue?] at step ⊢
    split at step
    · obtain rfl := Option.some.inj step
      rfl
    · exact beside step

private theorem step?_within {s next : State} {token : Token} (outer : List Group)
    (step : s.step? table token = some next) :
    (s.within outer).step? table token = some (next.within outer) := by
  unfold State.step? at step ⊢
  cases stands : s.operand with
  | some operand =>
    have same : (s.within outer).operand = some operand := stands
    rw [stands] at step
    rw [same]
    exact continue?_within outer step
  | none =>
    have same : (s.within outer).operand = none := stands
    rw [stands] at step
    rw [same]
    dsimp only at step ⊢
    split
    · rename_i closes
      rw [if_pos closes] at step
      exact closeEmpty?_within outer step
    · rename_i other
      rw [if_neg other] at step
      rw [start?_within, step, Option.map_some]

private theorem run_within {s final : State} {tokens : List Token} (outer : List Group)
    (steps : run table s tokens = some final) :
    run table (s.within outer) tokens = some (final.within outer) := by
  induction tokens generalizing s with
  | nil =>
    obtain rfl := Option.some.inj steps
    rfl
  | cons token tokens ih =>
    obtain ⟨next, step, behind⟩ := Option.bind_eq_some_iff.mp steps
    rw [run_cons, step?_within outer step]
    exact ih behind

private def State.IsFresh (s : State) : Prop :=
  s.operand = none → s.groups = [] → s.pending = [] → s.parts = []

private theorem Starts.notBlank {s next : State} {token : Token}
    (starts : Starts table s token next)
    (idle : next.operand = none) (closed : next.groups = []) : next.pending ≠ [] := by
  cases starts with
  | operand => simp at idle
  | unary => simp
  | openParen => simp [State.opened] at closed

/-- A move leaves an operand, an open group or a waiting operator, whatever was there before. -/
theorem Moves.notBlank {s next : State} {token : Token} (moves : Moves table s token next)
    (idle : next.operand = none) (closed : next.groups = []) : next.pending ≠ [] := by
  cases moves with
  | start _ starts | beside _ _ starts => exact starts.notBlank idle closed
  | closeEmpty | close => simp [State.closed] at idle
  | separate => simp at closed
  | apply => simp [State.opened] at closed
  | binary => simp

private theorem Moves.isFresh {s next : State} {token : Token} (moves : Moves table s token next) :
    next.IsFresh := fun idle closed ends => absurd ends (moves.notBlank idle closed)

private theorem run_isFresh {s final : State} {tokens : List Token} (fresh : s.IsFresh)
    (steps : run table s tokens = some final) : final.IsFresh :=
  run_induction steps fresh fun _ moves _ => moves.isFresh

/-- Only without any token is nothing left at the end. -/
theorem run_notBlank {s final : State} {tokens : List Token}
    (steps : run table s tokens = some final) (idle : final.operand = none)
    (closed : final.groups = []) (ends : final.pending = []) : tokens = [] := by
  rcases List.eq_nil_or_concat tokens with none | ⟨front, last, rfl⟩
  · exact none
  · rw [List.concat_eq_append, run_append] at steps
    obtain ⟨before, -, step⟩ := Option.bind_eq_some_iff.mp steps
    obtain ⟨next, moved, same⟩ := Option.bind_eq_some_iff.mp step
    obtain rfl := Option.some.inj same
    exact absurd ends ((moves_of_step? moved).notBlank idle closed)

/-- A query that holds an expression is read as that between parentheses or commas. -/
theorem fills_of_run {tokens : List Token} {final : State} {e : Expr}
    (steps : run table initial tokens = some final) (finished : final.finish = .ok e)
    (some : e ≠ .all []) : Fills table [] e tokens := by
  intro groups
  have framed := run_within groups steps
  have fresh : final.IsFresh := run_isFresh (fun _ _ _ => rfl) steps
  unfold State.finish at finished
  split at finished
  · rename_i operand stands closed
    exact ⟨_, operand, framed, by simp [State.within, closed], stands, Except.ok.inj finished⟩
  · simp at finished
  · rename_i idle
    -- Without an operand at the end only the empty query is read, since the final state is fresh.
    split at finished
    · rename_i ends
      obtain rfl := Except.ok.inj finished
      have none := fresh idle (List.isEmpty_iff.mp ends.1) (List.isEmpty_iff.mp ends.2)
      simp [none, Expr.ofParts] at some
    · simp at finished

end PullQuery.Query.Grammar
