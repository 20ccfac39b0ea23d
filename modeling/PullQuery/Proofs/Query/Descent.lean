import PullQuery.Proofs.Query.Moves

/-! Queries read by recursive descent, one function for each kind of phrase. Each call may nest others
only so deep, and going round in a loop counts as one more call inside of it; a call that does nothing but
make another one is not counted. How deep the calls nest is bounded by the number of tokens, since every
way round and every way down takes a token or comes nearer to taking one. -/
namespace PullQuery.Query.Descent
open Grammar

inductive Failure where
  | fault (error : ParseError)
  | tooDeep

abbrev Reading (α : Type) := StateT (List Lexeme) (Except Failure) α

def tooDeep {α : Type} : Reading α := fun _ => .error .tooDeep

def current : Reading (Option Token) := fun lexemes => .ok (lexemes.head?.map (·.token), lexemes)

/-- Whether juxtaposed expressions end here. -/
def isBoundary : Option Token → Bool
  | none | some .closeParen | some .comma => true
  | _ => false

def faultAt (ending : Except LexError Nat) (atEnd : ParseFault) : List Lexeme → ParseError
  | lexeme :: _ => ⟨.unexpected lexeme.token, lexeme.start⟩
  | [] =>
    match ending with
    | .ok offset => ⟨atEnd, offset⟩
    | .error error => .ofLexError error

section Phrases
variable (table : OperatorTable) (ending : Except LexError Nat)

def reject {α : Type} (atEnd : ParseFault) : Reading α := fun lexemes =>
  .error (.fault (faultAt ending atEnd lexemes))

/-- Passes the next token. The one behind it is looked at right away. -/
def advance : Reading Unit := fun lexemes =>
  match lexemes.tail, ending with
  | [], .error error => .error (.fault (.ofLexError error))
  | rest, _ => .ok ((), rest)

def tightEnough? (least : Nat) (token : Option Token) : Option (BinaryOp × Nat) :=
  (token.bind table.binary?).filter fun known => decide (least ≤ known.2)

mutual

/-- An operand and the operators behind it that bind at least as tightly as `least`. -/
def binary : (depth : Nat) → (least : Nat) → Reading Expr
  | 0, _ => tooDeep
  | depth + 1, least => do
    let left ← unary depth
    climb depth least left

def climb : (depth : Nat) → (least : Nat) → (left : Expr) → Reading Expr
  | 0, _, _ => tooDeep
  | depth + 1, least, left => do
    match tightEnough? table least (← current) with
    | none => return left
    | some (op, precedence) =>
      advance ending
      let right ← binary depth (precedence + 1)
      climb depth least (.binary op left right)

def unary : (depth : Nat) → Reading Expr
  | 0 => tooDeep
  | depth + 1 => do
    match (← current).bind table.unary? with
    | some op =>
      advance ending
      let operand ← unary depth
      return .unary op operand
    | none => primary depth

def primary : (depth : Nat) → Reading Expr
  | 0 => tooDeep
  | depth + 1 => do
    let token ← current
    match token.bind Operand.ofToken? with
    | some (.value e) =>
      advance ending
      return e
    | some (.name s) =>
      advance ending
      if (← current) = some .openParen then
        advance ending
        let items ← list depth
        return .call s (items.flatMap Expr.splice)
      else return .name s
    | none =>
      if token = some .openParen then
        advance ending
        let items ← list depth
        return Group.close ⟨none, [], [], []⟩ items
      else reject ending .unexpectedEnd

def list : (depth : Nat) → Reading (List Expr)
  | 0 => tooDeep
  | depth + 1 => do
    if (← current) = some .closeParen then
      advance ending
      return []
    else items depth []

def items : (depth : Nat) → (finished : List Expr) → Reading (List Expr)
  | 0, _ => tooDeep
  | depth + 1, finished => do
    let parts ← beside depth []
    if parts = [] then reject ending .unexpectedEnd
    else
      let finished := finished ++ [.ofParts parts]
      match ← current with
      | some .comma =>
        advance ending
        items depth finished
      | some .closeParen =>
        advance ending
        return finished
      | _ => reject ending .unclosed

def beside : (depth : Nat) → (finished : List Expr) → Reading (List Expr)
  | 0, _ => tooDeep
  | depth + 1, finished => do
    if isBoundary (← current) then return finished
    else
      let e ← binary depth 0
      beside depth (finished ++ [e])

end

def whole (depth : Nat) : Reading Expr := do
  let parts ← beside table ending depth []
  if (← current).isNone then return .ofParts parts else reject ending .unexpectedEnd

end Phrases

def readFrom {α : Type} (stream : TokenStream) (reading : Reading α) :
    Except Failure (α × TokenStream) :=
  match stream.lexemes, stream.ending with
  | [], .error error => .error (.fault (.ofLexError error))
  | lexemes, _ => (reading lexemes).map fun (a, rest) => (a, { stream with lexemes := rest })

def expression (table : OperatorTable) (depth : Nat) (stream : TokenStream) :
    Except Failure (Expr × TokenStream) :=
  readFrom stream (binary table stream.ending depth 0)

def query (table : OperatorTable) (depth : Nat) (stream : TokenStream) : Except Failure Expr :=
  (readFrom stream (whole table stream.ending depth)).map (·.1)

/-- What comes of a reading: that it nests too deep, a fault, or a phrase in front of the other tokens. -/
def Outcome {α : Type} (reading : Reading α) (lexemes : List Lexeme) (deep : Prop)
    (fault : ParseError → Prop) (done : α → List Lexeme → Prop) : Prop :=
  match reading lexemes with
  | .error .tooDeep => deep
  | .error (.fault error) => fault error
  | .ok (a, rest) => done a rest

def Standing (ending : Except LexError Nat) (lexemes : List Lexeme) : Prop :=
  lexemes = [] → ∃ offset, ending = .ok offset

section Outcomes
variable {α β : Type} {lexemes rest : List Lexeme} {deep : Prop} {fault : ParseError → Prop}

theorem outcome_bind {reading : Reading α} {next : α → Reading β} {done : β → List Lexeme → Prop} :
    Outcome (reading >>= next) lexemes deep fault done ↔
      Outcome reading lexemes deep fault fun a rest => Outcome (next a) rest deep fault done := by
  unfold Outcome
  change (match reading lexemes >>= fun found => next found.1 found.2 with
    | .error .tooDeep => deep | .error (.fault error) => fault error | .ok (a, rest) => done a rest) ↔ _
  cases reading lexemes with
  | error failure => cases failure <;> rfl
  | ok found => rfl

theorem Outcome.mono {reading : Reading α} {done post : α → List Lexeme → Prop}
    (outcome : Outcome reading lexemes deep fault done) (weaken : ∀ a rest, done a rest → post a rest) :
    Outcome reading lexemes deep fault post := by
  unfold Outcome at *
  split
  · simpa [*] using outcome
  · simpa [*] using outcome
  · rename_i a rest read
    exact weaken a rest (by simpa [read] using outcome)

variable {done : α → List Lexeme → Prop}

theorem outcome_pure {a : α} :
    Outcome (pure a) lexemes deep fault done ↔ done a lexemes := Iff.rfl

theorem outcome_current {next : Option Token → Reading α} :
    Outcome (current >>= next) lexemes deep fault done ↔
      Outcome (next (lexemes.head?.map (·.token))) lexemes deep fault done := Iff.rfl

theorem outcome_reject {ending : Except LexError Nat} {atEnd : ParseFault} :
    Outcome (reject ending atEnd) lexemes deep fault done ↔ fault (faultAt ending atEnd lexemes) :=
  Iff.rfl

theorem Outcome.advance {ending : Except LexError Nat} {next : Unit → Reading α} {lexeme : Lexeme}
    (lexical : ∀ error, rest = [] → ending = .error error → fault (.ofLexError error))
    (onward : Standing ending rest → Outcome (next ()) rest deep fault done) :
    Outcome (advance ending >>= next) (lexeme :: rest) deep fault done := by
  cases rest with
  | cons second rest => exact onward nofun
  | nil =>
    cases ending with
    | error error => exact lexical error rfl rfl
    | ok offset => exact onward fun _ => ⟨offset, rfl⟩

end Outcomes

section Depth
variable (table : OperatorTable) (ending : Except LexError Nat)

abbrev Ends {α : Type} (reading : Reading α) (lexemes : List Lexeme) (post : List Lexeme → Prop) : Prop :=
  Outcome reading lexemes False (fun _ => True) fun _ rest => post rest

/-- How deep the calls for each phrase may have to nest, and whether it takes a token. -/
structure Bounded (depth : Nat) : Prop where
  binary : ∀ least lexemes, 6 * lexemes.length + 3 ≤ depth →
    Ends (binary table ending depth least) lexemes (·.length < lexemes.length)
  climb : ∀ least left lexemes, 6 * lexemes.length + 1 ≤ depth →
    Ends (climb table ending depth least left) lexemes (·.length ≤ lexemes.length)
  unary : ∀ lexemes, 6 * lexemes.length + 2 ≤ depth →
    Ends (unary table ending depth) lexemes (·.length < lexemes.length)
  primary : ∀ lexemes, 6 * lexemes.length + 1 ≤ depth →
    Ends (primary table ending depth) lexemes (·.length < lexemes.length)
  list : ∀ lexemes, 6 * lexemes.length + 6 ≤ depth →
    Ends (list table ending depth) lexemes (·.length ≤ lexemes.length)
  items : ∀ finished lexemes, 6 * lexemes.length + 5 ≤ depth →
    Ends (items table ending depth finished) lexemes (·.length ≤ lexemes.length)
  beside : ∀ finished lexemes, 6 * lexemes.length + 4 ≤ depth →
    Ends (beside table ending depth finished) lexemes (·.length ≤ lexemes.length)

variable {table ending} {depth : Nat} {lexemes : List Lexeme}

theorem Ends.bind {α β : Type} {reading : Reading α} {next : α → Reading β}
    {first second : List Lexeme → Prop} (ends : Ends reading lexemes first)
    (onward : ∀ a rest, first rest → Ends (next a) rest second) :
    Ends (reading >>= next) lexemes second :=
  outcome_bind.mpr (ends.mono onward)

theorem Ends.mono {α : Type} {reading : Reading α} {first second : List Lexeme → Prop}
    (ends : Ends reading lexemes first) (weaken : ∀ rest, first rest → second rest) :
    Ends reading lexemes second :=
  Outcome.mono ends fun _ => weaken

theorem Ends.advance {α : Type} {next : Unit → Reading α} {post : List Lexeme → Prop} {lexeme : Lexeme}
    {rest : List Lexeme} (onward : Ends (next ()) rest post) :
    Ends (advance ending >>= next) (lexeme :: rest) post :=
  Outcome.advance (fun _ _ _ => trivial) fun _ => onward

theorem exists_cons_of_next {token : Token} (next : lexemes.head?.map (·.token) = some token) :
    ∃ lexeme rest, lexemes = lexeme :: rest ∧ lexeme.token = token := by
  obtain ⟨lexeme, first, same⟩ := Option.map_eq_some_iff.mp next
  obtain ⟨rest, rfl⟩ := List.head?_eq_some_iff.mp first
  exact ⟨lexeme, rest, rfl, same⟩

theorem exists_cons_of_bind {α : Type} {f : Token → Option α} {a : α}
    (found : (lexemes.head?.map (·.token)).bind f = some a) :
    ∃ lexeme rest, lexemes = lexeme :: rest ∧ f lexeme.token = some a := by
  obtain ⟨token, next, known⟩ := Option.bind_eq_some_iff.mp found
  obtain ⟨lexeme, rest, rfl, rfl⟩ := exists_cons_of_next next
  exact ⟨lexeme, rest, rfl, known⟩

section Steps
variable (ih : Bounded table ending depth)
include ih

private theorem Bounded.binary_succ (least : Nat) (enough : 6 * lexemes.length + 3 ≤ depth + 1) :
    Ends (Descent.binary table ending (depth + 1) least) lexemes (·.length < lexemes.length) := by
  rw [Descent.binary]
  refine (ih.unary lexemes (by omega)).bind fun left rest shorter => ?_
  exact (ih.climb least left rest (by omega)).mono fun _ _ => by omega

private theorem Bounded.climb_succ (least : Nat) (left : Expr)
    (enough : 6 * lexemes.length + 1 ≤ depth + 1) :
    Ends (Descent.climb table ending (depth + 1) least left) lexemes
      (·.length ≤ lexemes.length) := by
  rw [Descent.climb]
  refine outcome_current.mpr ?_
  split
  · exact le_rfl
  · rename_i op precedence found
    obtain ⟨lexeme, rest, rfl, -⟩ := exists_cons_of_bind (Option.filter_eq_some_iff.mp found).1
    rw [List.length_cons] at enough ⊢
    refine Ends.advance ((ih.binary (precedence + 1) rest (by omega)).bind fun right last _ => ?_)
    exact (ih.climb least _ last (by omega)).mono fun _ _ => by omega

private theorem Bounded.unary_succ (enough : 6 * lexemes.length + 2 ≤ depth + 1) :
    Ends (Descent.unary table ending (depth + 1)) lexemes (·.length < lexemes.length) := by
  rw [Descent.unary]
  refine outcome_current.mpr ?_
  split
  · rename_i op found
    obtain ⟨lexeme, rest, rfl, -⟩ := exists_cons_of_bind found
    rw [List.length_cons] at enough ⊢
    refine Ends.advance ((ih.unary rest (by omega)).bind fun operand last shorter => ?_)
    exact outcome_pure.mpr (by omega)
  · exact ih.primary lexemes (by omega)

private theorem Bounded.primary_succ (enough : 6 * lexemes.length + 1 ≤ depth + 1) :
    Ends (Descent.primary table ending (depth + 1)) lexemes (·.length < lexemes.length) := by
  rw [Descent.primary]
  refine outcome_current.mpr ?_
  split
  · rename_i e found
    obtain ⟨lexeme, rest, rfl, -⟩ := exists_cons_of_bind found
    exact Ends.advance (outcome_pure.mpr (by simp))
  · rename_i s found
    obtain ⟨lexeme, rest, rfl, -⟩ := exists_cons_of_bind found
    refine Ends.advance (outcome_current.mpr ?_)
    split
    · rename_i opens
      obtain ⟨second, behind, rfl, -⟩ := exists_cons_of_next opens
      simp only [List.length_cons] at enough ⊢
      refine Ends.advance ((ih.list behind (by omega)).bind fun items last shorter => ?_)
      exact outcome_pure.mpr (by omega)
    · exact outcome_pure.mpr (by simp)
  · split
    · rename_i opens
      obtain ⟨lexeme, rest, rfl, -⟩ := exists_cons_of_next opens
      rw [List.length_cons] at enough ⊢
      refine Ends.advance ((ih.list rest (by omega)).bind fun items last shorter => ?_)
      exact outcome_pure.mpr (by omega)
    · exact outcome_reject.mpr trivial

private theorem Bounded.list_succ (enough : 6 * lexemes.length + 6 ≤ depth + 1) :
    Ends (Descent.list table ending (depth + 1)) lexemes (·.length ≤ lexemes.length) := by
  rw [Descent.list]
  refine outcome_current.mpr ?_
  split
  · rename_i closes
    obtain ⟨lexeme, rest, rfl, -⟩ := exists_cons_of_next closes
    exact Ends.advance (outcome_pure.mpr (by simp))
  · exact ih.items [] lexemes (by omega)

private theorem Bounded.items_succ (finished : List Expr)
    (enough : 6 * lexemes.length + 5 ≤ depth + 1) :
    Ends (Descent.items table ending (depth + 1) finished) lexemes (·.length ≤ lexemes.length) := by
  rw [Descent.items]
  refine (ih.beside [] lexemes (by omega)).bind fun parts rest shorter => ?_
  split
  · exact outcome_reject.mpr trivial
  · refine outcome_current.mpr ?_
    split
    · rename_i separates
      obtain ⟨lexeme, last, rfl, -⟩ := exists_cons_of_next separates
      rw [List.length_cons] at shorter
      exact Ends.advance ((ih.items _ last (by omega)).mono fun _ _ => by omega)
    · rename_i closes
      obtain ⟨lexeme, last, rfl, -⟩ := exists_cons_of_next closes
      exact Ends.advance (outcome_pure.mpr (Nat.le_of_succ_le shorter))
    · exact outcome_reject.mpr trivial

private theorem Bounded.beside_succ (finished : List Expr)
    (enough : 6 * lexemes.length + 4 ≤ depth + 1) :
    Ends (Descent.beside table ending (depth + 1) finished) lexemes (·.length ≤ lexemes.length) := by
  rw [Descent.beside]
  refine outcome_current.mpr ?_
  split
  · exact outcome_pure.mpr le_rfl
  · refine (ih.binary 0 lexemes (by omega)).bind fun e rest shorter => ?_
    exact (ih.beside _ rest (by omega)).mono fun _ _ => by omega

end Steps

/-- Six calls for each token are enough, and a few more. -/
theorem bounded (depth : Nat) : Bounded table ending depth := by
  induction depth with
  | zero => constructor <;> intros <;> omega
  | succ depth ih =>
    exact ⟨fun least _ => ih.binary_succ least, fun least left _ => ih.climb_succ least left,
      fun _ => ih.unary_succ, fun _ => ih.primary_succ, fun _ => ih.list_succ,
      fun finished _ => ih.items_succ finished, fun finished _ => ih.beside_succ finished⟩

end Depth

end PullQuery.Query.Descent
