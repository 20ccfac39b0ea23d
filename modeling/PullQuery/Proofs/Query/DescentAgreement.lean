import PullQuery.Proofs.Query.Descent
import PullQuery.Proofs.Query.Operands

/-! The descent reads what the parser reads. What the calls of the descent hold while they wait for others
is what the parser keeps as open groups, finished parts and waiting operators, so that from any state of
the parser a phrase leads it on to the state that holds the phrase, or to the same fault. -/
namespace PullQuery.Query

namespace Grammar
variable {table : OperatorTable} {s next : State} {token : Token}

private theorem start?_unary {op : UnaryOp} (known : table.unary? token = some op) :
    s.start? table token = some { s with pending := .unary op :: s.pending } := by
  have spelled : token = .minus ∨ token = .plus := by
    revert known
    cases token <;> simp [OperatorTable.unary?, UnaryOp.ofToken?]
  obtain rfl | rfl := spelled
  · exact congrArg (Option.map _) known
  · exact congrArg (Option.map _) known

private theorem step?_of_starts (idle : s.operand = none) (starts : Starts table s token next) :
    s.step? table token = some next := by
  unfold State.step?
  rw [idle]
  cases starts with
  | operand leaf =>
    cases token <;> simp [Operand.ofToken?] at leaf <;> obtain rfl := leaf <;> rfl
  | unary known =>
    have other : token ≠ .closeParen := by
      rintro rfl
      simp [OperatorTable.unary?, UnaryOp.ofToken?] at known
    simpa [other] using start?_unary known
  | openParen => rfl

private theorem step?_closeEmpty {group : Group} {outer : List Group} (fresh : group.items = []) :
    State.step? table ⟨group :: outer, [], [], none⟩ .closeParen =
      some (.closed group outer []) := by
  simp [State.step?, State.closeEmpty?, fresh]

private theorem step?_close {operand : Operand} {group : Group} {outer : List Group}
    (stands : s.operand = some operand) (inside : s.groups = group :: outer) :
    s.step? table .closeParen =
      some (.closed group outer (s.run operand.expr :: group.items).reverse) := by
  simp [State.step?, stands, State.continue?, inside]

private theorem step?_separate {operand : Operand} {group : Group} {outer : List Group}
    (stands : s.operand = some operand) (inside : s.groups = group :: outer) :
    s.step? table .comma =
      some ⟨{ group with items := s.run operand.expr :: group.items } :: outer, [], [], none⟩ := by
  simp [State.step?, stands, State.continue?, inside]

private theorem step?_apply {function : String} (stands : s.operand = some (.name function)) :
    s.step? table .openParen = some ({ s with operand := none }.opened (some function)) := by
  simp [State.step?, stands, State.continue?]

private theorem step?_binary {operand : Operand} {op : BinaryOp} {precedence : Nat}
    (stands : s.operand = some operand) (known : table.binary? token = some (op, precedence)) :
    s.step? table token =
      some ⟨s.groups, s.parts, .binary (reduce precedence s.pending operand.expr).2 op precedence ::
        (reduce precedence s.pending operand.expr).1, none⟩ := by
  unfold State.step?
  rw [stands]
  cases token <;> simp [OperatorTable.binary?, BinaryOp.ofToken?] at known <;>
    simp [State.continue?, OperatorTable.binary?, BinaryOp.ofToken?, known]

theorem step?_eq_none (idle : s.operand = none) (leaf : Operand.ofToken? token = none)
    (sign : table.unary? token = none) (opens : token ≠ .openParen)
    (closes : token = .closeParen → s.closeEmpty? = none) : s.step? table token = none := by
  rw [Option.eq_none_iff_forall_ne_some]
  intro next step
  cases moves_of_step? step with
  | start _ starts =>
    cases starts with
    | operand found => simp [leaf] at found
    | unary known => simp [sign] at known
    | openParen => exact opens rfl
  | closeEmpty _ inside parts pending items =>
    simp [State.closeEmpty?, inside, parts, pending, items] at closes
  | close stands | separate stands | apply stands | binary stands | beside stands =>
    simp [idle] at stands

/-- A token that does not go on with an operand begins a new part beside it. -/
theorem step?_beside {operand : Operand} (stands : s.operand = some operand)
    (boundary : Descent.isBoundary (some token) = false) (ends : table.binary? token = none)
    (applies : token = .openParen → ∀ function, operand ≠ .name function) :
    s.step? table token =
      State.step? table ⟨s.groups, reduceAll s.pending operand.expr :: s.parts, [], none⟩ token := by
  unfold State.step?
  rw [stands]
  cases token with
  | closeParen | comma => simp [Descent.isBoundary] at boundary
  | openParen =>
    cases operand with
    | name function => exact absurd rfl (applies rfl function)
    | value e => rfl
  | _ => simp [State.continue?, ends]

theorem isComplete_of_idle (idle : s.operand = none) : s.isComplete table token = false := by
  simp [State.isComplete, idle]

private theorem isComplete_of_inside {group : Group} {outer : List Group}
    (inside : s.groups = group :: outer) :
    s.isComplete table token = false := by
  cases stands : s.operand with
  | none => exact isComplete_of_idle stands
  | some operand => cases operand <;> simp [State.isComplete, stands, inside]

private theorem isComplete_of_binary (known : (table.binary? token).isSome) :
    s.isComplete table token = false := by
  obtain ⟨found, known⟩ := Option.isSome_iff_exists.mp known
  simp only [State.isComplete, known]
  split <;> simp

private theorem isComplete_of_name {function : String}
    (stands : s.operand = some (.name function)) :
    s.isComplete table .openParen = false := by
  simp only [State.isComplete, stands]
  split <;> simp_all

end Grammar

namespace Descent
open Grammar

/-- What takes steps of the parser until it stops at a token that an expression does not go on with. -/
structure Drives {β : Type} (table : OperatorTable) (ending : Except LexError Nat)
    (stops : State → Token → Bool) (drive : State → List Lexeme → Except ParseError β) : Prop where
  step : ∀ {s next lexeme rest}, stops s lexeme.token = false →
    s.step? table lexeme.token = some next → drive s (lexeme :: rest) = drive next rest
  stuck : ∀ {s lexeme rest}, stops s lexeme.token = false → s.step? table lexeme.token = none →
    drive s (lexeme :: rest) = .error ⟨.unexpected lexeme.token, lexeme.start⟩
  lexical : ∀ {s error}, ending = .error error → drive s [] = .error (.ofLexError error)
  finish : ∀ {s offset fault}, ending = .ok offset → s.finish = .error fault →
    drive s [] = .error ⟨fault, offset⟩
  complete : ∀ {s token}, stops s token = true → s.isComplete table token = true

private theorem drives_parseFrom (table : OperatorTable) (ending : Except LexError Nat) :
    Drives table ending (fun _ _ => false) (parseFrom table ending) where
  step _ step := by rw [parseFrom, step]
  stuck _ stuck := by rw [parseFrom, stuck]
  lexical := by
    rintro s error rfl
    rw [parseFrom]
  finish := by
    rintro s offset fault rfl wrong
    rw [parseFrom, wrong]
    rfl
  complete := nofun

private theorem drives_expressionFrom (table : OperatorTable) (ending : Except LexError Nat) :
    Drives table ending (State.isComplete table) (expressionFrom table ending) where
  step goes step := by rw [expressionFrom, goes, step]; rfl
  stuck goes stuck := by rw [expressionFrom, goes, stuck]; rfl
  lexical := by
    rintro s error rfl
    rw [expressionFrom]
  finish := by
    rintro s offset fault rfl wrong
    rw [expressionFrom, wrong]
    rfl
  complete := id

section Agreement
variable {β : Type} (table : OperatorTable) (ending : Except LexError Nat)
  (stops : State → Token → Bool) (drive : State → List Lexeme → Except ParseError β)

/-- A reading that does not nest too deep ends in the fault that the parser ends in, or leads the parser to
a state of which something is known. -/
def Leads {α : Type} (s : State) (reading : Reading α) (lexemes : List Lexeme)
    (post : α → List Lexeme → State → Prop) : Prop :=
  Outcome reading lexemes True (fun error => drive s lexemes = .error error) fun a rest =>
    Standing ending rest ∧ ∃ next, drive s lexemes = drive next rest ∧ post a rest next

variable {table ending stops drive} {s : State} {lexemes : List Lexeme}

theorem Leads.bind {α γ : Type} {reading : Reading α} {onward : α → Reading γ}
    {post : α → List Lexeme → State → Prop} {last : γ → List Lexeme → State → Prop}
    (leads : Leads ending drive s reading lexemes post)
    (behind : ∀ a rest next, Standing ending rest → post a rest next →
      Leads ending drive next (onward a) rest last) :
    Leads ending drive s (reading >>= onward) lexemes last := by
  refine outcome_bind.mpr (Outcome.mono leads fun a rest => ?_)
  rintro ⟨standing, next, same, holds⟩
  rw [same]
  exact behind a rest next standing holds

theorem Leads.pure {α : Type} {a : α} {post : α → List Lexeme → State → Prop}
    (standing : Standing ending lexemes) (holds : post a lexemes s) :
    Leads ending drive s (Pure.pure a) lexemes post :=
  outcome_pure.mpr ⟨standing, s, rfl, holds⟩

theorem Leads.mono {α : Type} {reading : Reading α} {post last : α → List Lexeme → State → Prop}
    (leads : Leads ending drive s reading lexemes post)
    (weaken : ∀ a rest next, post a rest next → last a rest next) :
    Leads ending drive s reading lexemes last := by
  refine Outcome.mono leads fun a rest => ?_
  rintro ⟨standing, next, same, holds⟩
  exact ⟨standing, next, same, weaken a rest next holds⟩

private theorem Leads.of_eq {α : Type} {reading : Reading α} {post : α → List Lexeme → State → Prop}
    {other : State}
    (same : drive s lexemes = drive other lexemes) (leads : Leads ending drive other reading lexemes post) :
    Leads ending drive s reading lexemes post := by
  unfold Leads at *
  rwa [same]

section Drive
variable (drives : Drives table ending stops drive)
include drives

private theorem Drives.goes_on {token : Token} (other : s.isComplete table token = false) :
    stops s token = false := by
  by_contra stop
  simp [drives.complete (Bool.of_not_eq_false stop)] at other

private theorem Drives.advance {α : Type} {onward : Unit → Reading α} {lexeme : Lexeme}
    {rest : List Lexeme}
    {next : State} {post : α → List Lexeme → State → Prop} (goes : stops s lexeme.token = false)
    (step : s.step? table lexeme.token = some next)
    (behind : Standing ending rest → Leads ending drive next (onward ()) rest post) :
    Leads ending drive s (Descent.advance ending >>= onward) (lexeme :: rest) post := by
  have same : drive s (lexeme :: rest) = drive next rest := drives.step goes step
  refine Outcome.advance (fun error empty fault => ?_) fun standing => ?_
  · rw [same, empty, drives.lexical fault]
  · rw [same]
    exact behind standing

private theorem Drives.reject {α : Type} {atEnd : ParseFault}
    {post : α → List Lexeme → State → Prop}
    (wrong : ∀ lexeme ∈ lexemes.head?, stops s lexeme.token = false ∧
      s.step? table lexeme.token = none)
    (ends : lexemes = [] → s.finish = .error atEnd) :
    Leads ending drive s (Descent.reject ending atEnd) lexemes post := by
  refine outcome_reject.mpr ?_
  cases lexemes with
  | cons lexeme rest =>
    obtain ⟨goes, stuck⟩ := wrong lexeme rfl
    exact drives.stuck goes stuck
  | nil =>
    cases found : ending with
    | error error => exact drives.lexical found
    | ok offset => exact drives.finish found (ends rfl)

theorem Drives.eq_of_step? {other : State} {lexeme : Lexeme} {rest : List Lexeme}
    (goes : stops s lexeme.token = false) (same : stops other lexeme.token = false)
    (step : s.step? table lexeme.token = other.step? table lexeme.token) :
    drive s (lexeme :: rest) = drive other (lexeme :: rest) := by
  cases onward : other.step? table lexeme.token with
  | some next => rw [drives.step goes (step.trans onward), drives.step same onward]
  | none => rw [drives.stuck goes (step.trans onward), drives.stuck same onward]

end Drive

private theorem leads_current {α : Type} {onward : Option Token → Reading α}
    {post : α → List Lexeme → State → Prop} :
    Leads ending drive s (current >>= onward) lexemes post ↔
      Leads ending drive s (onward (lexemes.head?.map (·.token))) lexemes post := Iff.rfl

end Agreement

section Phrases
variable (table : OperatorTable)

def upcoming? (lexemes : List Lexeme) : Option Nat :=
  ((lexemes.head?.map (·.token)).bind table.binary?).map (·.2)

def Settled (operand : Operand) (lexemes : List Lexeme) : Prop :=
  ∀ function, operand = .name function → lexemes.head?.map (·.token) ≠ some .openParen

structure Expects (s : State) (lexemes : List Lexeme) : Prop where
  idle : s.operand = none
  closes : lexemes.head?.map (·.token) = some .closeParen → s.closeEmpty? = none
  ends : lexemes = [] → s.finish = .error .unexpectedEnd

/-- The parser has an expression at hand since `outer`. What waits inside of it binds at least as tightly
as `least`, and at least as tightly as what comes next. -/
inductive Holds (outer : State) (least : Nat) (rest : List Lexeme) : Expr → State → Prop
  | intro {pending : List Pending} {operand : Operand}
      (tight : ∀ left op own, Pending.binary left op own ∈ pending →
        least ≤ own ∧ ∀ p ∈ upcoming? table rest, p ≤ own)
      (settled : Settled operand rest) :
      Holds outer least rest (reduceAll pending operand.expr)
        ⟨outer.groups, outer.parts, pending ++ outer.pending, some operand⟩

/-- The parser has expressions side by side, the last of which nothing goes on with. -/
inductive Beside (groups : List Group) (rest : List Lexeme) : List Expr → State → Prop
  | idle : Beside groups rest [] ⟨groups, [], [], none⟩
  | stands {parts : List Expr} {pending : List Pending} {operand : Operand}
      (ends : upcoming? table rest = none) (settled : Settled operand rest) :
      Beside groups rest (reduceAll pending operand.expr :: parts).reverse
        ⟨groups, parts, pending, some operand⟩

variable {β : Type} (ending : Except LexError Nat) (stops : State → Token → Bool)
  (drive : State → List Lexeme → Except ParseError β)

structure Agrees (depth : Nat) : Prop where
  binary : ∀ {s least lexemes}, Expects s lexemes → Waits least s.pending →
    Leads ending drive s (binary table ending depth least) lexemes fun e rest next =>
      Holds table s least rest e next ∧ ∀ p ∈ upcoming? table rest, p < least
  climb : ∀ {outer s least left lexemes}, Waits least outer.pending →
    Holds table outer least lexemes left s → Standing ending lexemes →
    Leads ending drive s (climb table ending depth least left) lexemes fun e rest next =>
      Holds table outer least rest e next ∧ ∀ p ∈ upcoming? table rest, p < least
  unary : ∀ {s lexemes}, Expects s lexemes →
    Leads ending drive s (unary table ending depth) lexemes fun e rest next =>
      ∀ least, Holds table s least rest e next
  primary : ∀ {s lexemes}, Expects s lexemes →
    (lexemes.head?.map (·.token)).bind table.unary? = none →
    Leads ending drive s (primary table ending depth) lexemes fun e rest next =>
      ∀ least, Holds table s least rest e next
  list : ∀ {group outer lexemes}, Standing ending lexemes → group.items = [] →
    Leads ending drive ⟨group :: outer, [], [], none⟩ (list table ending depth) lexemes
      fun items _ next => next = .closed group outer items
  items : ∀ {group outer finished lexemes}, Standing ending lexemes →
    (finished = [] → lexemes.head?.map (·.token) ≠ some .closeParen) →
    Leads ending drive ⟨{ group with items := finished.reverse } :: outer, [], [], none⟩
      (items table ending depth finished) lexemes fun items _ next => next = .closed group outer items
  beside : ∀ {groups finished s lexemes}, Standing ending lexemes →
    (∀ s token, s.groups = groups → stops s token = false) →
    Beside table groups lexemes finished s →
    Leads ending drive s (beside table ending depth finished) lexemes fun parts rest next =>
      Beside table groups rest parts next ∧ isBoundary (rest.head?.map (·.token)) = true ∧
        (parts = [] → finished = [] ∧ rest = lexemes)

end Phrases

section Phrases
variable {table : OperatorTable} {s : State} {lexemes : List Lexeme}

private theorem Expects.of_pending (idle : s.operand = none) (waiting : s.pending ≠ []) :
    Expects s lexemes := by
  refine ⟨idle, fun _ => ?_, fun _ => ?_⟩
  · unfold State.closeEmpty?
    split
    · contradiction
    · rfl
  · simp [State.finish, idle, waiting]

private theorem Expects.of_onward (idle : s.operand = none)
    (onward : isBoundary (lexemes.head?.map (·.token)) = false) : Expects s lexemes := by
  refine ⟨idle, fun closes => ?_, ?_⟩
  · simp [closes, isBoundary] at onward
  · rintro rfl
    simp [isBoundary] at onward

private theorem settled_value (e : Expr) (lexemes : List Lexeme) :
    Settled (.value e) lexemes := nofun

private theorem holds_operand {operand : Operand} (outer : State) (least : Nat)
    (settled : Settled operand lexemes) :
    Holds table outer least lexemes operand.expr { outer with operand := some operand } :=
  @Holds.intro table outer least lexemes [] operand (by simp) settled

theorem tightEnough?_eq_none {least : Nat}
    (loose : tightEnough? table least (lexemes.head?.map (·.token)) = none) :
    ∀ p ∈ upcoming? table lexemes, p < least := by
  intro p next
  obtain ⟨⟨op, own⟩, found, rfl⟩ := Option.map_eq_some_iff.mp next
  simpa [tightEnough?, found] using loose

end Phrases

section Phrases
variable {table : OperatorTable} {outer next : State} {least : Nat} {rest : List Lexeme} {e : Expr}

theorem eq_of_isBoundary {token : Option Token} (boundary : isBoundary token = true) :
    token = none ∨ token = some .closeParen ∨ token = some .comma := by
  unfold isBoundary at boundary
  split at boundary <;> simp_all

theorem Holds.around {waiting : Pending} {operand : Option Operand} {inner : Nat}
    (enough : least ≤ inner)
    (tight : ∀ left op own, waiting = .binary left op own →
      least ≤ own ∧ ∀ p ∈ upcoming? table rest, p ≤ own)
    (holds : Holds table ⟨outer.groups, outer.parts, waiting :: outer.pending, operand⟩ inner rest e next) :
    Holds table outer least rest (reduceAll [waiting] e) next := by
  cases holds with
  | @intro pending operand within settled =>
    have holds : Holds table outer least rest (reduceAll (pending ++ [waiting]) operand.expr)
        ⟨outer.groups, outer.parts, pending ++ [waiting] ++ outer.pending, some operand⟩ := by
      refine .intro (fun left op own member => ?_) settled
      rcases List.mem_append.mp member with inside | last
      · obtain ⟨tighter, notLooser⟩ := within left op own inside
        exact ⟨enough.trans tighter, notLooser⟩
      · exact tight left op own (List.mem_singleton.mp last).symm
    rwa [reduceAll_append, List.append_assoc] at holds

private theorem Holds.unary {op : UnaryOp}
    (holds : Holds table { outer with pending := .unary op :: outer.pending } least rest e next) :
    Holds table outer least rest (.unary op e) next :=
  .around le_rfl (fun _ _ _ same => Pending.noConfusion same) holds

private theorem Holds.binary {op : BinaryOp} {precedence : Nat} {left : Expr}
    (enough : least ≤ precedence) (looser : ∀ p ∈ upcoming? table rest, p < precedence + 1)
    (holds : Holds table ⟨outer.groups, outer.parts, .binary left op precedence :: outer.pending, none⟩
      (precedence + 1) rest e next) :
    Holds table outer least rest (.binary op left e) next := by
  refine .around (Nat.le_succ_of_le enough) ?_ holds
  rintro _ _ _ ⟨⟩
  exact ⟨enough, fun p upcoming => Nat.le_of_lt_succ (looser p upcoming)⟩

theorem upcoming?_eq_none (ends : ∀ p ∈ upcoming? table rest, p < 0) : upcoming? table rest = none :=
  Option.eq_none_iff_forall_not_mem.mpr fun p member => Nat.not_lt_zero p (ends p member)

private theorem Holds.beside {groups : List Group} {finished : List Expr}
    (holds : Holds table ⟨groups, finished.reverse, [], none⟩ 0 rest e next)
    (ends : ∀ p ∈ upcoming? table rest, p < 0) : Beside table groups rest (finished ++ [e]) next := by
  cases holds with
  | @intro pending operand tight settled =>
    have stands : Beside table groups rest (reduceAll pending operand.expr :: finished.reverse).reverse
        ⟨groups, finished.reverse, pending, some operand⟩ :=
      .stands (upcoming?_eq_none ends) settled
    simpa using stands

theorem Beside.begins {β : Type} {ending : Except LexError Nat} {stops : State → Token → Bool}
    {drive : State → List Lexeme → Except ParseError β} (drives : Drives table ending stops drive)
    {groups : List Group} {finished : List Expr} (reads : Beside table groups rest finished outer)
    (quiet : ∀ s token, s.groups = groups → stops s token = false)
    (onward : isBoundary (rest.head?.map (·.token)) = false) :
    drive outer rest = drive ⟨groups, finished.reverse, [], none⟩ rest := by
  cases reads with
  | idle => rfl
  | @stands parts pending operand ends settled =>
    cases rest with
    | nil => simp [isBoundary] at onward
    | cons lexeme rest =>
      have ends : table.binary? lexeme.token = none := by simpa [upcoming?] using ends
      have applies : lexeme.token = .openParen → ∀ function, operand ≠ .name function := by
        intro opens function name
        exact settled function name (by simp [opens])
      rw [List.reverse_reverse]
      exact drives.eq_of_step? (quiet _ _ rfl) (quiet _ _ rfl) (step?_beside rfl onward ends applies)

end Phrases

section Steps
variable {β : Type} {table : OperatorTable} {ending : Except LexError Nat} {stops : State → Token → Bool}
  {drive : State → List Lexeme → Except ParseError β} {depth : Nat} {s : State} {lexemes : List Lexeme}
  (drives : Drives table ending stops drive) (ih : Agrees table ending stops drive depth)
include drives ih

omit drives in
private theorem Agrees.binary_succ {least : Nat} (expects : Expects s lexemes)
    (waits : Waits least s.pending) :
    Leads ending drive s (Descent.binary table ending (depth + 1) least) lexemes fun e rest next =>
      Holds table s least rest e next ∧ ∀ p ∈ upcoming? table rest, p < least := by
  rw [Descent.binary]
  refine (ih.unary expects).bind fun left rest next standing holds => ?_
  exact ih.climb waits (holds least) standing

private theorem Agrees.climb_succ {outer : State} {least : Nat} {left : Expr}
    (waits : Waits least outer.pending)
    (holds : Holds table outer least lexemes left s) (standing : Standing ending lexemes) :
    Leads ending drive s (Descent.climb table ending (depth + 1) least left) lexemes fun e rest next =>
      Holds table outer least rest e next ∧ ∀ p ∈ upcoming? table rest, p < least := by
  rw [Descent.climb]
  refine leads_current.mpr ?_
  split
  · rename_i loose
    exact .pure standing ⟨holds, tightEnough?_eq_none loose⟩
  · rename_i op precedence found
    obtain ⟨found, enough⟩ := Option.filter_eq_some_iff.mp found
    have enough : least ≤ precedence := of_decide_eq_true enough
    obtain ⟨lexeme, rest, rfl, known⟩ := exists_cons_of_bind found
    have upcoming : upcoming? table (lexeme :: rest) = some precedence := by simp [upcoming?, known]
    cases holds with
    | @intro pending operand tight settled =>
      have reduced := reduce_append operand.expr
        (fun left op own member => (tight left op own member).2 precedence upcoming) (waits.mono enough)
      have step := step?_binary
        (s := ⟨outer.groups, outer.parts, pending ++ outer.pending, some operand⟩) rfl known
      rw [reduced] at step
      refine drives.advance (drives.goes_on (isComplete_of_binary (by simp [known]))) step fun _ => ?_
      refine (ih.binary (.of_pending rfl (by simp)) (Nat.lt_succ_self _)).bind
        fun right last next standing read => ?_
      exact ih.climb waits (read.1.binary enough read.2) standing

private theorem Agrees.unary_succ (expects : Expects s lexemes) :
    Leads ending drive s (Descent.unary table ending (depth + 1)) lexemes fun e rest next =>
      ∀ least, Holds table s least rest e next := by
  rw [Descent.unary]
  refine leads_current.mpr ?_
  split
  · rename_i op found
    obtain ⟨lexeme, rest, rfl, known⟩ := exists_cons_of_bind found
    refine drives.advance (drives.goes_on (isComplete_of_idle expects.idle))
      (step?_of_starts expects.idle (.unary known)) fun _ => ?_
    have follows : Expects { s with pending := .unary op :: s.pending } rest :=
      .of_pending expects.idle (List.cons_ne_nil _ _)
    refine (ih.unary follows).bind fun operand last next standing holds => ?_
    exact .pure standing fun least => (holds least).unary
  · rename_i sign
    exact ih.primary expects sign

private theorem Agrees.primary_succ (expects : Expects s lexemes)
    (sign : (lexemes.head?.map (·.token)).bind table.unary? = none) :
    Leads ending drive s (Descent.primary table ending (depth + 1)) lexemes fun e rest next =>
      ∀ least, Holds table s least rest e next := by
  have goes {token : Token} : stops s token = false :=
    drives.goes_on (isComplete_of_idle expects.idle)
  rw [Descent.primary]
  refine leads_current.mpr ?_
  split
  · rename_i e found
    obtain ⟨lexeme, rest, rfl, leaf⟩ := exists_cons_of_bind found
    refine drives.advance goes (step?_of_starts expects.idle (.operand leaf)) fun standing => ?_
    exact .pure standing fun least => holds_operand s least (settled_value e rest)
  · rename_i function found
    obtain ⟨lexeme, rest, rfl, leaf⟩ := exists_cons_of_bind found
    refine drives.advance goes (step?_of_starts expects.idle (.operand leaf)) fun standing => ?_
    refine leads_current.mpr ?_
    split
    · rename_i opens
      obtain ⟨second, behind, rfl, same⟩ := exists_cons_of_next opens
      refine drives.advance (drives.goes_on (same ▸ isComplete_of_name rfl)) (same ▸ step?_apply rfl) fun standing => ?_
      refine (ih.list standing rfl).bind fun items last next standing closed => ?_
      subst closed
      exact .pure standing fun least => holds_operand s least (settled_value _ last)
    · rename_i other
      have settled : Settled (.name function) rest := fun _ _ => other
      exact .pure standing fun least => holds_operand s least settled
  · rename_i leaf
    split
    · rename_i opens
      obtain ⟨lexeme, rest, rfl, same⟩ := exists_cons_of_next opens
      refine drives.advance goes (same ▸ step?_of_starts expects.idle .openParen) fun standing => ?_
      refine (ih.list standing rfl).bind fun items last next standing closed => ?_
      subst closed
      exact .pure standing fun least => holds_operand s least (settled_value _ last)
    · rename_i other
      refine drives.reject (fun lexeme first => ⟨goes, ?_⟩) expects.ends
      obtain ⟨rest, rfl⟩ := List.head?_eq_some_iff.mp first
      refine step?_eq_none expects.idle (by simpa using leaf) (by simpa using sign)
        (fun opens => other (by simp [opens])) fun closes => expects.closes (by simp [closes])

private theorem Agrees.list_succ {group : Group} {outer : List Group}
    (standing : Standing ending lexemes) (fresh : group.items = []) :
    Leads ending drive ⟨group :: outer, [], [], none⟩ (Descent.list table ending (depth + 1)) lexemes
      fun items _ next => next = .closed group outer items := by
  rw [Descent.list]
  refine leads_current.mpr ?_
  split
  · rename_i closes
    obtain ⟨lexeme, rest, rfl, same⟩ := exists_cons_of_next closes
    exact drives.advance (drives.goes_on (isComplete_of_idle rfl)) (same ▸ step?_closeEmpty fresh)
      fun standing => .pure standing rfl
  · rename_i other
    obtain ⟨function, items, parts, pending⟩ := group
    obtain rfl : items = [] := fresh
    exact @ih.items ⟨function, [], parts, pending⟩ outer [] lexemes standing fun _ => other

private theorem Agrees.items_succ {group : Group} {outer : List Group} {finished : List Expr}
    (standing : Standing ending lexemes)
    (goesOn : finished = [] → lexemes.head?.map (·.token) ≠ some .closeParen) :
    Leads ending drive ⟨{ group with items := finished.reverse } :: outer, [], [], none⟩
      (Descent.items table ending (depth + 1) finished) lexemes
      fun items _ next => next = .closed group outer items := by
  have within {s : State} {token : Token}
      (inside : s.groups = { group with items := finished.reverse } :: outer) :
      stops s token = false := drives.goes_on (isComplete_of_inside inside)
  rw [Descent.items]
  refine (ih.beside standing (fun _ _ => within) .idle).bind
    fun parts rest next standing read => ?_
  obtain ⟨reads, boundary, untouched⟩ := read
  cases reads with
  | idle =>
    obtain rfl := (untouched rfl).2
    refine drives.reject (fun lexeme first => ⟨within rfl, ?_⟩) fun _ => rfl
    obtain ⟨behind, rfl⟩ := List.head?_eq_some_iff.mp first
    cases same : lexeme.token with
    | comma => rfl
    | closeParen =>
      cases finished with
      | nil => simp [same] at goesOn
      | cons e others => simp [State.step?, State.closeEmpty?]
    | _ => simp [same, isBoundary] at boundary
  | @stands before pending operand =>
    rw [if_neg (by simp)]
    refine leads_current.mpr ?_
    rcases eq_of_isBoundary boundary with ended | closes | separates
    · rw [ended]
      obtain rfl : rest = [] := by simpa using ended
      exact drives.reject (by simp) fun _ => rfl
    · rw [closes]
      obtain ⟨lexeme, last, rfl, same⟩ := exists_cons_of_next closes
      refine drives.advance (within rfl) (same ▸ step?_close rfl rfl) fun standing => ?_
      exact .pure standing (by rw [List.reverse_cons, List.reverse_reverse]; rfl)
    · rw [separates]
      obtain ⟨lexeme, last, rfl, same⟩ := exists_cons_of_next separates
      refine drives.advance (within rfl) (same ▸ step?_separate rfl rfl) fun standing => ?_
      have behind := @ih.items group outer
        (finished ++ [.ofParts (reduceAll pending operand.expr :: before).reverse]) last standing (by simp)
      rwa [List.reverse_append] at behind

private theorem Agrees.beside_succ {groups : List Group} {finished : List Expr}
    (standing : Standing ending lexemes)
    (quiet : ∀ s token, s.groups = groups → stops s token = false)
    (reads : Beside table groups lexemes finished s) :
    Leads ending drive s (Descent.beside table ending (depth + 1) finished) lexemes fun parts rest next =>
      Beside table groups rest parts next ∧ isBoundary (rest.head?.map (·.token)) = true ∧
        (parts = [] → finished = [] ∧ rest = lexemes) := by
  rw [Descent.beside]
  refine leads_current.mpr ?_
  split
  · rename_i boundary
    refine .pure standing ⟨reads, boundary, ?_⟩
    rintro rfl
    exact ⟨rfl, rfl⟩
  · rename_i onward
    have onward := Bool.eq_false_iff.mpr onward
    refine .of_eq (reads.begins drives quiet onward) ?_
    have follows : Expects ⟨groups, finished.reverse, [], none⟩ lexemes := .of_onward rfl onward
    refine (ih.binary follows trivial).bind fun e rest next standing read => ?_
    refine (ih.beside standing quiet (read.1.beside read.2)).mono ?_
    rintro parts last final ⟨reads, boundary, untouched⟩
    exact ⟨reads, boundary, fun none => absurd (untouched none).1 (by simp)⟩

end Steps

private theorem agrees {β : Type} {table : OperatorTable} {ending : Except LexError Nat}
    {stops : State → Token → Bool} {drive : State → List Lexeme → Except ParseError β}
    (drives : Drives table ending stops drive) (depth : Nat) :
    Agrees table ending stops drive depth := by
  induction depth with
  | zero => constructor <;> intros <;> trivial
  | succ depth ih =>
    exact ⟨ih.binary_succ, ih.climb_succ drives, ih.unary_succ drives, ih.primary_succ drives,
      ih.list_succ drives, ih.items_succ drives, ih.beside_succ drives⟩

section Texts
variable {table : OperatorTable} {ending : Except LexError Nat} {depth : Nat}

theorem Leads.outcome {β α : Type} {drive : State → List Lexeme → Except ParseError β} {s : State}
    {reading : Reading α} {lexemes : List Lexeme} {post : α → List Lexeme → State → Prop}
    {bound : List Lexeme → Prop} (leads : Leads ending drive s reading lexemes post)
    (ends : Ends reading lexemes bound) :
    (∃ error, reading lexemes = .error (.fault error) ∧ drive s lexemes = .error error) ∨
      ∃ a rest next, reading lexemes = .ok (a, rest) ∧ drive s lexemes = drive next rest ∧
        Standing ending rest ∧ post a rest next := by
  unfold Leads Ends Outcome at *
  cases read : reading lexemes with
  | error failure =>
    rw [read] at leads ends
    cases failure with
    | tooDeep => exact ends.elim
    | fault error => exact .inl ⟨error, rfl, leads⟩
  | ok found =>
    rw [read] at leads
    obtain ⟨standing, next, same, holds⟩ := leads
    exact .inr ⟨found.1, found.2, next, rfl, same, standing, holds⟩

theorem expressionFrom_of_holds {next : State} {rest : List Lexeme} {e : Expr}
    (holds : Holds table initial 0 rest e next) (ends : ∀ p ∈ upcoming? table rest, p < 0)
    (standing : Standing ending rest) : expressionFrom table ending next rest = .ok (e, rest) := by
  cases holds with
  | @intro pending operand tight settled =>
    cases rest with
    | nil =>
      obtain ⟨offset, rfl⟩ := standing rfl
      simp [expressionFrom, initial, State.finish, State.run, Expr.ofParts, Except.map, Except.mapError]
    | cons lexeme rest =>
      have loose : table.binary? lexeme.token = none := by simpa [upcoming?] using upcoming?_eq_none ends
      have complete : State.isComplete table ⟨[], [], pending, some operand⟩ lexeme.token = true := by
        cases operand with
        | name function => simpa [State.isComplete, loose] using settled function rfl
        | value e => simp [State.isComplete, loose]
      simp [expressionFrom, initial, complete, State.finish, State.run, Expr.ofParts, Except.map,
        Except.mapError]

/-- The descent reads the first expression of some tokens as the parser does, and nests no deeper than six
calls for each of them and three more. -/
theorem expression_eq {stream : TokenStream} (enough : 6 * stream.lexemes.length + 3 ≤ depth) :
    expression table depth stream = (parseFirst table stream).mapError .fault := by
  obtain ⟨lexemes, ending⟩ := stream
  cases lexemes with
  | nil =>
    cases ending with
    | error error => rfl
    | ok offset =>
      obtain ⟨depth, rfl⟩ := Nat.exists_eq_add_of_le' enough
      rfl
  | cons lexeme lexemes =>
    have expects : Expects initial (lexeme :: lexemes) := ⟨rfl, fun _ => rfl, nofun⟩
    have waits : Waits 0 initial.pending := trivial
    have leads := (agrees (drives_expressionFrom table ending) depth).binary expects waits
    rcases leads.outcome ((bounded depth).binary 0 _ enough) with
      ⟨error, read, same⟩ | ⟨e, rest, next, read, same, standing, holds, ends⟩
    · simp [expression, readFrom, parseFirst, read, same, Except.map, Except.mapError]
    · rw [expressionFrom_of_holds holds ends standing] at same
      simp [expression, readFrom, parseFirst, read, same, Except.map, Except.mapError]

private theorem whole_ends {lexemes : List Lexeme} (enough : 6 * lexemes.length + 4 ≤ depth) :
    Ends (whole table ending depth) lexemes fun _ => True := by
  refine ((bounded depth).beside [] lexemes enough).bind fun parts rest _ => ?_
  refine outcome_current.mpr ?_
  split
  · exact outcome_pure.mpr trivial
  · exact outcome_reject.mpr trivial

private theorem whole_leads {lexemes : List Lexeme} (standing : Standing ending lexemes) :
    Leads ending (parseFrom table ending) initial (whole table ending depth) lexemes
      fun e rest next => rest = [] ∧ next.finish = .ok e := by
  have drives := drives_parseFrom table ending
  refine ((agrees drives depth).beside standing (fun _ _ _ => rfl) .idle).bind
    fun parts rest next standing read => leads_current.mpr ?_
  obtain ⟨reads, boundary, -⟩ := read
  rcases eq_of_isBoundary boundary with ended | behind
  · rw [ended]
    obtain rfl : rest = [] := by simpa using ended
    refine .pure standing ⟨rfl, ?_⟩
    cases reads <;> rfl
  · cases rest with
    | nil => simp at behind
    | cons lexeme last =>
      have stuck : next.step? table lexeme.token = none := by
        have other : lexeme.token = .closeParen ∨ lexeme.token = .comma := by simpa using behind
        rcases other with closes | separates
        · rw [closes]
          cases reads <;> rfl
        · rw [separates]
          cases reads <;> rfl
      refine drives.reject (fun first found => ?_) nofun
      obtain rfl : lexeme = first := Option.some.inj found
      exact ⟨rfl, stuck⟩

theorem query_eq {stream : TokenStream} (enough : 6 * stream.lexemes.length + 4 ≤ depth) :
    query table depth stream =
      (parseFrom table stream.ending initial stream.lexemes).mapError .fault := by
  obtain ⟨lexemes, ending⟩ := stream
  by_cases standing : Standing ending lexemes
  · have read : readFrom ⟨lexemes, ending⟩ (whole table ending depth) =
        (whole table ending depth lexemes).map fun found => (found.1, ⟨found.2, ending⟩) := by
      cases lexemes with
      | nil =>
        obtain ⟨offset, rfl⟩ := standing rfl
        rfl
      | cons lexeme rest => rfl
    rw [query, read]
    rcases (@whole_leads table ending depth lexemes standing).outcome (whole_ends enough) with
      ⟨error, read, same⟩ | ⟨e, rest, next, read, same, standing, rfl, finished⟩
    · simp [read, same, Except.map, Except.mapError]
    · obtain ⟨offset, rfl⟩ := standing rfl
      rw [read, same, parseFrom, finished]
      rfl
  · obtain ⟨rfl, failed⟩ := Classical.not_imp.mp standing
    cases ending with
    | error error => rfl
    | ok offset => exact absurd ⟨offset, rfl⟩ failed

end Texts

end Descent
end PullQuery.Query
