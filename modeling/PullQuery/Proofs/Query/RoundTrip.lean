import PullQuery.Proofs.Query.Operands
import PullQuery.Proofs.Query.Written

/-! Parsing undoes writing. The text of every part of a tree is read as tokens that bring the parser
to that part, so the text of a whole query is parsed as its tree, whatever the precedences are. -/
namespace PullQuery.Query
open PullQuery.Number PullQuery.Text Grammar

def Reads (table : OperatorTable) (bound : Option Nat) (text : List Char) (e : Expr) : Prop :=
  ∃ tokens, Spells text tokens ∧ Yields table bound e tokens

def ReadsPart (table : OperatorTable) (parts : List Expr) (text : List Char) (e : Expr) : Prop :=
  ∃ tokens, Spells text tokens ∧ Fills table parts e tokens

def ReadsItems (table : OperatorTable) (text : List Char) (items : List Expr) : Prop :=
  ∃ tokens, Spells text tokens ∧ Lists table items tokens

variable {table : OperatorTable} {bound : Option Nat} {text : List Char} {e : Expr}

theorem Reads.part (reads : Reads table bound text e) : ReadsPart table [] text e := by
  obtain ⟨tokens, spells, yields⟩ := reads
  exact ⟨tokens, spells, yields.fills⟩

theorem Reads.leaf {token : Token} {operand : Operand} (spells : Spells text [token])
    (step : ∀ s : State, s.start? table token = some { s with operand := some operand })
    (other : token ≠ .closeParen) : Reads table none text operand.expr :=
  ⟨[token], spells, .leaf step other⟩

theorem ReadsPart.enclosed (reads : ReadsPart table [] text e) :
    Reads table none ('(' :: (text ++ [')'])) e := by
  obtain ⟨tokens, spells, fills⟩ := reads
  exact ⟨_, spells.enclosed, fills.yields⟩

private theorem Reads.enclose (loose : Nat → Bool) (reads : Reads table bound text e) :
    Reads table (bound.filter (!loose ·)) (Expr.enclose (bound.any loose) text) e := by
  cases bound with
  | none => exact reads
  | some p =>
    cases chosen : loose p with
    | true => simpa [chosen, Expr.enclose, Option.filter] using reads.part.enclosed
    | false => simpa [chosen, Expr.enclose, Option.filter] using reads

theorem Reads.unary {op : UnaryOp} (known : op ∈ table.unary) (reads : Reads table none text e) :
    Reads table none (op.spelling :: text) (.unary op e) := by
  obtain ⟨tokens, spells, yields⟩ := reads
  exact ⟨_, spells.signed op, yields.unary known⟩

theorem Reads.binary {op : BinaryOp} {p : Nat} (known : table.precedence op = some p)
    {before behind : Option Nat} {more : List Char} {left right : Expr}
    (first : Reads table before text left) (notLooser : ∀ q ∈ before, p ≤ q)
    (second : Reads table behind more right) (tighter : ∀ q ∈ behind, p < q) :
    Reads table (some p) (text ++ ' ' :: (op.spelling ++ ' ' :: more)) (.binary op left right) := by
  obtain ⟨tokens, spells, yields⟩ := first
  obtain ⟨others, spelled, yielded⟩ := second
  exact ⟨tokens ++ op.token :: others, spells.spaced ((spells_operator op).spaced spelled),
    yields.binary known notLooser yielded tighter⟩

theorem ReadsItems.nil : ReadsItems table [] [] := by
  refine ⟨[], ?_, .nil⟩
  intro rest others delimited lexes
  exact lexes

theorem ReadsPart.single (reads : ReadsPart table [] text e) : ReadsItems table text [e] := by
  obtain ⟨tokens, spells, fills⟩ := reads
  exact ⟨tokens, spells, fills.single⟩

theorem ReadsPart.parse (reads : ReadsPart table [] text e) : parse table text = .ok e := by
  obtain ⟨tokens, spells, fills⟩ := reads
  have lexes := spells [] [] (by simp [Delimited]) .nil
  obtain ⟨s, operand, steps, outermost, found, whole⟩ := fills []
  refine parse_iff.mpr ⟨tokens, s, by simpa using lexes, steps, ?_⟩
  simp [State.finish, found, outermost, whole]

theorem ReadsPart.cons {items : List Expr} {more : List Char} (reads : ReadsPart table [] text e)
    (some : items ≠ []) (behind : ReadsItems table more items) :
    ReadsItems table (text ++ ',' :: ' ' :: more) (e :: items) := by
  obtain ⟨tokens, spells, fills⟩ := reads
  obtain ⟨others, spelled, lists⟩ := behind
  exact ⟨_, spells.separated spelled, fills.cons some lists⟩

theorem ReadsItems.group {items : List Expr} (reads : ReadsItems table text items)
    (several : ∀ e, items ≠ [e]) :
    Reads table none ('(' :: (text ++ [')'])) (.ofItems items) := by
  obtain ⟨tokens, spells, lists⟩ := reads
  exact ⟨_, spells.enclosed, .group lists several⟩

private theorem ReadsItems.call {items : List Expr} (reads : ReadsItems table text items)
    {function : String} (single : tokenize function.toList = .ok [.name function]) :
    Reads table none (function.toList ++ '(' :: (text ++ [')']))
      (.call function (items.flatMap Expr.splice)) := by
  obtain ⟨tokens, spells, lists⟩ := reads
  exact ⟨_, (spells_name single).applied spells.enclosed, .call lists function⟩

theorem Expr.flatMap_splice {items : List Expr} (flat : ∀ e ∈ items, e.isList = false) :
    items.flatMap Expr.splice = items := by
  induction items with
  | nil => rfl
  | cons e items ih =>
    have alone : e.splice = [e] := by
      have other := flat e (by simp)
      cases e <;> first | rfl | simp [Expr.isList] at other
    have behind := ih fun e member => flat e (.tail _ member)
    rw [List.flatMap_cons, alone, behind, List.singleton_append]

section Written
variable (table) (floats : FloatSpelling)

private theorem readsItems_printItems {items : List Expr}
    (each : ∀ e ∈ items, Reads table (e.rank? table) (e.print table floats) e) :
    ReadsItems table (Expr.printItems table floats items) items := by
  induction items with
  | nil => exact .nil
  | cons e items ih =>
    have first := (each e (by simp)).part
    have behind := ih fun e member => each e (.tail _ member)
    match items with
    | [] => exact first.single
    | f :: rest => exact first.cons (by simp) behind

private theorem spells_printParts {parts : List Expr} (some : parts ≠ [])
    (each : ∀ e ∈ parts, Reads table (e.rank? table) (e.print table floats) e)
    (finished : List Expr) :
    ∃ tokens, Spells (Expr.printParts table floats parts) (.openParen :: tokens) ∧
      Fills table finished (.ofParts (finished.reverse ++ parts)) (.openParen :: tokens) := by
  induction parts generalizing finished with
  | nil => exact absurd rfl some
  | cons e parts ih =>
    obtain ⟨tokens, spells, fills⟩ := (each e (by simp)).part
    match parts with
    | [] =>
      refine ⟨_, spells.enclosed, ?_⟩
      simpa using fills.last finished
    | f :: rest =>
      obtain ⟨others, spelled, behind⟩ :=
        ih (by simp) (fun e member => each e (.tail _ member)) (e :: finished)
      refine ⟨_, spells.enclosed.spaced spelled, ?_⟩
      simpa using fills.beside behind

private theorem readsPart_printParts {parts : List Expr} (several : 2 ≤ parts.length)
    (each : ∀ e ∈ parts, Reads table (e.rank? table) (e.print table floats) e) :
    ReadsPart table [] (Expr.printParts table floats parts) (.all parts) := by
  have some : parts ≠ [] := by
    rintro rfl
    simp at several
  obtain ⟨tokens, spells, fills⟩ := spells_printParts table floats some each []
  have whole : Expr.ofParts parts = .all parts := by
    match parts with
    | _ :: _ :: _ => rfl
  exact ⟨_, spells, by simpa [whole] using fills⟩

theorem reads_print {e : Expr} (formed : e.WellFormed table) :
    Reads table (e.rank? table) (e.print table floats) e := by
  induction formed with
  | integer nonnegative => exact .leaf (spells_integer nonnegative) (fun _ => rfl) (by simp)
  | float reads => exact .leaf (spells_float (floats.reads reads)) (fun _ => rfl) (by simp)
  | text s => exact .leaf (spells_text s) (fun _ => rfl) (by simp)
  | boolean b =>
    cases b with
    | true => exact .leaf spells_true (fun _ => rfl) (by simp)
    | false => exact .leaf spells_false (fun _ => rfl) (by simp)
  | null => exact .leaf spells_null (fun _ => rfl) (by simp)
  | name single => exact .leaf (spells_name single) (fun _ => rfl) (by simp)
  -- Below an operator a binary operand stands in parentheses, whatever its precedence.
  | @unary op e known operand ih =>
    have alone := ih.enclose fun _ => true
    rw [show (e.rank? table).any (fun _ => true) = (e.rank? table).isSome by
      cases e.rank? table <;> rfl] at alone
    have tight : (e.rank? table).filter (fun _ => !true) = none := by
      cases e.rank? table <;> rfl
    exact (tight ▸ alone).unary known
  | @binary op left right known first second ihFirst ihSecond =>
    obtain ⟨p, found⟩ := Option.isSome_iff_exists.mp known
    have rank : table.rank op = p := by simp [OperatorTable.rank, found]
    have before := ihFirst.enclose fun q => decide (q < p)
    have behind := ihSecond.enclose fun q => decide (q ≤ p)
    rw [Expr.rank?, Expr.print, rank]
    refine .binary found before ?_ behind ?_
    · intro q kept
      simpa using (Option.mem_filter_iff.mp kept).2
    · intro q kept
      simpa using (Option.mem_filter_iff.mp kept).2
  | @list items flat each ih =>
    have inner := readsItems_printItems table floats ih
    have joined : Expr.ofItems items = .list items := congrArg _ (Expr.flatMap_splice flat)
    match items with
    | [] => exact ReadsItems.nil.group (by simp)
    -- One item in parentheses would be the item itself, so an empty list is written in front of it.
    | [e] =>
      have empty : Reads table none ['(', ')'] (.list []) := ReadsItems.nil.group (by simp)
      have pair := empty.part.cons (by simp) inner
      have whole := pair.group (by simp)
      rwa [show Expr.ofItems [.list [], e] = .list [e] from joined] at whole
    | e :: f :: rest =>
      have whole := inner.group (by simp)
      rwa [joined] at whole
  | call single flat each ih =>
    have whole := (readsItems_printItems table floats ih).call single
    rwa [Expr.flatMap_splice flat] at whole
  | all several each ih => exact (readsPart_printParts table floats several ih).enclosed

/-- The trees that a query can stand for: those of the empty text and of its parts. -/
def Expr.IsQuery (e : Expr) : Prop := e = .all [] ∨ e.WellFormed table

/-- Parsing undoes writing, whatever the operators are and however tightly each of them binds. -/
theorem parse_printQuery {e : Expr} (query : e.IsQuery table) :
    parse table (e.printQuery table floats) = .ok e := by
  rcases query with rfl | formed
  · exact parse_iff.mpr ⟨[], initial, .nil, rfl, rfl⟩
  · have reads : ReadsPart table [] (e.printQuery table floats) e := by
      cases formed with
      | all several each =>
        exact readsPart_printParts table floats several fun e member =>
          reads_print table floats (each e member)
      | _ => exact (reads_print table floats (by constructor <;> assumption)).part
    obtain ⟨tokens, spells, fills⟩ := reads
    have lexes := spells [] [] (by simp [Delimited]) .nil
    obtain ⟨s, operand, steps, outermost, found, whole⟩ := fills []
    refine parse_iff.mpr ⟨tokens, s, by simpa using lexes, steps, ?_⟩
    simp [State.finish, found, outermost, whole]

end Written

noncomputable def FloatSpelling.chosen : FloatSpelling :=
  have some (x : Float) : ∃ digits : List Char × List Char,
      ∀ {whole fraction : List Char}, ReadsAs whole fraction x →
        ReadsAs digits.1 digits.2 x := by
    by_cases found : ∃ whole fraction, ReadsAs whole fraction x
    · obtain ⟨whole, fraction, reads⟩ := found
      exact ⟨(whole, fraction), fun _ => reads⟩
    · exact ⟨([], []), fun reads => absurd ⟨_, _, reads⟩ found⟩
  ⟨fun x => (some x).choose.1, fun x => (some x).choose.2, fun reads => (some _).choose_spec reads⟩

/-- A table in which OR binds tightest and sums bind as the comparisons do. -/
def OperatorTable.inverted : OperatorTable :=
  (((OperatorTable.empty.addBinary .or 255).addBinary .equal 7).addBinary .subtract 7).addUnary .negate

theorem parse_printQuery_inverted :
    let e : Expr := .all
      [.binary .or (.binary .subtract (.name "a") (.unary .negate (.binary .equal .null (.name "b"))))
        (.binary .subtract (.float (decimalFloat ['1'] ['5'])) (.list [.text "x\"(y\\"])),
      .call "f" [.integer 3, .all [.list [], .boolean true]]]
    e.IsQuery .inverted ∧
      parse .inverted (e.printQuery .inverted .chosen) = .ok e := by
  intro e
  have reads : ReadsAs ['1'] ['5'] (decimalFloat ['1'] ['5']) :=
    ⟨by simp, by simp, by simp, by simp, rfl⟩
  have first : Expr.WellFormed .inverted (.name "a") := .name (by decide +kernel)
  have second : Expr.WellFormed .inverted (.name "b") := .name (by decide +kernel)
  have minus : UnaryOp.negate ∈ OperatorTable.inverted.unary := by decide
  have equation : Expr.WellFormed .inverted (.binary .equal .null (.name "b")) :=
    .binary rfl .null second
  have literal : Expr.WellFormed .inverted (.list [.text "x\"(y\\"]) :=
    .list (by simp [Expr.isList]) (by simpa using .text _)
  have inner : Expr.WellFormed .inverted (.all [.list [], .boolean true]) :=
    .all (by simp) (by simpa using ⟨.list (by simp) (by simp), .boolean true⟩)
  have call : Expr.WellFormed .inverted (.call "f" [.integer 3, .all [.list [], .boolean true]]) :=
    .call (by decide +kernel) (by simp [Expr.isList])
      (by simpa using ⟨.integer (by decide), inner⟩)
  have sum : Expr.WellFormed .inverted
      (.binary .or (.binary .subtract (.name "a") (.unary .negate (.binary .equal .null (.name "b"))))
        (.binary .subtract (.float (decimalFloat ['1'] ['5'])) (.list [.text "x\"(y\\"]))) :=
    .binary rfl (.binary rfl first (.unary minus equation)) (.binary rfl (.float reads) literal)
  have formed : e.WellFormed .inverted := .all (by simp) (by simpa using ⟨sum, call⟩)
  exact ⟨.inr formed, parse_printQuery _ _ (.inr formed)⟩

end PullQuery.Query
