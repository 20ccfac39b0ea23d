import PullQuery.Text.Character

/-! Parts of a text: what is left without the blanks at its ends, whether a text occurs in another,
and replacing the pieces that a rule picks, from left to right. A piece that was picked is not
looked into again, and neither is what stands for it. -/
namespace PullQuery.Text

def skipBlanks (cs : List Char) : List Char := cs.dropWhile isBlank

def trimBlanks (cs : List Char) : List Char :=
  (skipBlanks (skipBlanks cs).reverse).reverse

def occursIn (part : List Char) : List Char → Bool
  | [] => part.isEmpty
  | c :: rest => part.isPrefixOf (c :: rest) || occursIn part rest

theorem occursIn_iff {part whole : List Char} : occursIn part whole = true ↔ part <:+: whole := by
  induction whole with
  | nil => simp [occursIn]
  | cons c rest ih =>
    rw [occursIn, Bool.or_eq_true, ih, List.isPrefixOf_iff_prefix, List.infix_cons_iff]

def sameAsciiFolded (a b : String) : Bool :=
  a.toList.map Char.toLower == b.toList.map Char.toLower

/-- A piece at the start of a text: how many characters it takes and what stands for them. -/
structure Replacement where
  width : Nat
  text : List Char

/-- What a rule picks in front of `after`, given the reversed text `before`. -/
abbrev PieceRule := (before after : List Char) → Option Replacement

def replaceFrom (rule : PieceRule) : (before : List Char) → (skip : Nat) → List Char → List Char
  | _, _, [] => []
  | before, skip + 1, c :: rest => replaceFrom rule (c :: before) skip rest
  | before, 0, c :: rest =>
    match rule before (c :: rest) with
    | none => c :: replaceFrom rule (c :: before) 0 rest
    | some piece => piece.text ++ replaceFrom rule (c :: before) (piece.width - 1) rest

def replacePieces (rule : PieceRule) (cs : List Char) : List Char := replaceFrom rule [] 0 cs

end PullQuery.Text
