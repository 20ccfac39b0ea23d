import PullQuery.Proofs.Query.Printer

/-! The tokens of written trees. A part of a query is read as the same tokens in front of
everything that may follow it there: the end, a blank, a parenthesis or a comma. -/
namespace PullQuery.Query
open PullQuery.Number PullQuery.Text Lexeme

def Delimited (cs : List Char) : Prop := ∀ c ∈ cs.head?, c ∈ [' ', '(', ')', ',']

/-- A text that reads as some tokens in front of everything that may follow it. -/
def Spells (text : List Char) (tokens : List Token) : Prop :=
  ∀ (rest : List Char) (others : List Token), Delimited rest → Lexes rest others →
    Lexes (text ++ rest) (tokens ++ others)

theorem Delimited.breaks {cs : List Char} (delimited : Delimited cs) : Breaks cs := by
  intro c first
  have listed := delimited c first
  have harmless : [' ', '(', ')', ','].all (fun c => !isNamePart c && c ∉ extenders) = true := by
    decide
  simpa using List.all_eq_true.mp harmless c listed

theorem delimited_cons {c : Char} (listed : c ∈ [' ', '(', ')', ',']) (rest : List Char) :
    Delimited (c :: rest) := by
  intro d first
  obtain rfl : c = d := by simpa using first
  exact listed

theorem lexes_symbol {c : Char} {token : Token}
    (found : ∀ rest, Token.symbols.find? (fun symbol => symbol.1.isPrefixOf (c :: rest)) =
      some ([c], token)) {rest : List Char} {others : List Token} (lexes : Lexes rest others) :
    Lexes (c :: rest) (token :: others) := by
  have fronts : Fronts [c] rest token := .symbol (found rest)
  exact .token fronts lexes

theorem lexes_openParen {rest : List Char} {others : List Token} (lexes : Lexes rest others) :
    Lexes ('(' :: rest) (.openParen :: others) := lexes_symbol (fun _ => rfl) lexes

theorem lexes_closeParen {rest : List Char} {others : List Token} (lexes : Lexes rest others) :
    Lexes (')' :: rest) (.closeParen :: others) := lexes_symbol (fun _ => rfl) lexes

private theorem lexes_comma {rest : List Char} {others : List Token} (lexes : Lexes rest others) :
    Lexes (',' :: rest) (.comma :: others) := lexes_symbol (fun _ => rfl) lexes

theorem lexes_space {rest : List Char} {others : List Token} (lexes : Lexes rest others) :
    Lexes (' ' :: rest) others := .blank (by decide) lexes

theorem Spells.single {text : List Char} {token : Token} (fronts : Fronts text [] token)
    (other : token ≠ .not) : Spells text [token] := by
  intro rest others delimited lexes
  exact .token (fronts.stable (.inl delimited.breaks) (absurd · other)) lexes

theorem Spells.enclosed {text : List Char} {tokens : List Token} (spells : Spells text tokens) :
    Spells ('(' :: (text ++ [')'])) (.openParen :: (tokens ++ [.closeParen])) := by
  intro rest others delimited lexes
  have inner := spells _ _ (delimited_cons (by simp) rest) (lexes_closeParen lexes)
  simpa using lexes_openParen inner

theorem Spells.spaced {text more : List Char} {tokens others : List Token}
    (spells : Spells text tokens) (after : Spells more others) :
    Spells (text ++ ' ' :: more) (tokens ++ others) := by
  intro rest left delimited lexes
  have inner := spells _ _ (delimited_cons (by simp) _) (lexes_space (after _ _ delimited lexes))
  simpa using inner

theorem Spells.separated {text more : List Char} {tokens others : List Token}
    (spells : Spells text tokens) (after : Spells more others) :
    Spells (text ++ ',' :: ' ' :: more) (tokens ++ .comma :: others) := by
  intro rest left delimited lexes
  have next := lexes_comma (lexes_space (after _ _ delimited lexes))
  simpa using spells _ _ (delimited_cons (by simp) _) next

theorem Spells.applied {text more : List Char} {tokens others : List Token}
    (spells : Spells text tokens) (after : Spells ('(' :: more) others) :
    Spells (text ++ '(' :: more) (tokens ++ others) := by
  intro rest left delimited lexes
  have inner := spells _ _ (delimited_cons (by simp) _) (after _ _ delimited lexes)
  simpa using inner

theorem Spells.signed (op : UnaryOp) {text : List Char} {tokens : List Token}
    (spells : Spells text tokens) : Spells (op.spelling :: text) (op.token :: tokens) := by
  intro rest others delimited lexes
  cases op <;> exact lexes_symbol (fun _ => rfl) (spells _ _ delimited lexes)

private theorem fronts_keyword {c : Char} {run : List Char} {token : Token}
    (start : isNameStart c = true) (all : run.all isNamePart = true)
    (keyword : keyword? (c :: run) = some token) (other : token ≠ .not) :
    Fronts (c :: run) [] token :=
  .keyword start (List.all_eq_true.mp all) (by simp [StopsRun]) keyword (absurd · other)

theorem spells_operator (op : BinaryOp) : Spells op.spelling [op.token] := by
  have fronts : Fronts op.spelling [] op.token := by
    cases op with
    | equal | notEqual | contains | less | greater | lessEqual | greaterEqual | add | subtract =>
      exact .symbol rfl
    | isIn =>
      exact fronts_keyword (by decide) (by decide) rfl (by simp [BinaryOp.token])
    | notIn =>
      exact @Fronts.notIn 'N' ['O', 'T'] [' '] ['I', 'N'] [] (by decide)
        (by simp; decide) rfl (by simp) (by simp; decide) (.inl rfl) (by simp [StopsRun])
    | and =>
      exact fronts_keyword (by decide) (by decide) rfl (by simp [BinaryOp.token])
    | or =>
      exact fronts_keyword (by decide) (by decide) rfl (by simp [BinaryOp.token])
  exact .single fronts (by cases op <;> simp [BinaryOp.token])

theorem fronts_natDigits {n : Int64} (nonnegative : 0 ≤ n.toInt) {after : List Char}
    (stops : StopsRun Char.isDigit after) (point : startsFraction after = false) :
    Fronts (natDigits n.toInt.toNat) after (.integer n) := by
  have digits : ∀ c ∈ natDigits n.toInt.toNat, c.isDigit = true := fun _ =>
    isDigit_of_mem_natDigits
  have value : (n.toInt.toNat : Int) = n.toInt := Int.toNat_of_nonneg nonnegative
  have read : readWord? (natDigits n.toInt.toNat) = .some n := by
    rw [readWord?, if_pos ⟨natDigits_ne_nil _, List.all_eq_true.mpr digits⟩, digitsValue_natDigits, value,
      word?_toInt]
  exact .integer digits read stops point

theorem spells_integer {n : Int64} (nonnegative : 0 ≤ n.toInt) :
    Spells (natDigits n.toInt.toNat) [.integer n] :=
  .single (fronts_natDigits nonnegative (by simp [StopsRun]) rfl) (by simp)

theorem spells_float {whole fraction : List Char} {x : Float} (reads : ReadsAs whole fraction x) :
    Spells (whole ++ '.' :: fraction) [.float x] := by
  obtain ⟨start, some, digits, decimals, rfl⟩ := reads
  exact .single (.float digits decimals start some (by simp [StopsRun])) (by simp)

theorem spells_text (s : String) : Spells (asLiteral s.toList) [.text s] := by
  have fronts := fronts_asLiteral s.toList []
  rw [String.ofList_toList] at fronts
  exact .single fronts (by simp)

theorem spells_true : Spells ['t', 'r', 'u', 'e'] [.boolean true] :=
  .single (fronts_keyword (by decide) (by decide) rfl (by simp)) (by simp)

theorem spells_false : Spells ['f', 'a', 'l', 's', 'e'] [.boolean false] :=
  .single (fronts_keyword (by decide) (by decide) rfl (by simp)) (by simp)

theorem spells_null : Spells ['n', 'u', 'l', 'l'] [.null] :=
  .single (fronts_keyword (by decide) (by decide) rfl (by simp)) (by simp)

theorem spells_name {s : String} (single : tokenize s.toList = .ok [.name s]) :
    Spells s.toList [.name s] := by
  have fronts := (isName_of_single single).fronts (show StopsRun isNamePart [] by simp [StopsRun])
  rw [String.ofList_toList] at fronts
  exact .single fronts (by simp)

end PullQuery.Query
