import PullQuery.Number.Reading
import PullQuery.Query.Token
import PullQuery.Text.Character
import PullQuery.Text.Quoted

/-! From text to tokens. One step takes a token off the front of a text and says how many
characters it took; the tokens of a whole text stand with their offsets in front of the offset of
its end or of the fault that stopped the lexer. -/
namespace PullQuery.Query

open PullQuery.Number
open PullQuery.Text

inductive LexFault where
  | unexpected (c : Char)
  | unterminated
  | badEscape (c : Char)
  | badNumber (digits : String)
  deriving DecidableEq, Repr

/-- A fault and the offset of the character to blame. -/
structure LexError where
  fault : LexFault
  offset : Nat
  deriving DecidableEq, Repr

def LexError.message (error : LexError) : String :=
  let offset := error.offset
  match error.fault with
  | .unexpected c => s!"unexpected character '{c}' at position {offset}"
  | .unterminated => s!"unterminated string starting at position {offset}"
  | .badEscape c => s!"invalid escape sequence '\\{c}' at position {offset}"
  | .badNumber digits => s!"invalid number '{digits}' at position {offset}"

/-- A token with the offsets of its first character and of the one after its last. -/
structure Lexeme where
  start : Nat
  stop : Nat
  token : Token
  deriving DecidableEq

/-- The tokens of a text in order, and where it ended or what stopped the lexer. -/
structure TokenStream where
  lexemes : List Lexeme
  ending : Except LexError Nat

namespace Lexeme

def isNameStart (c : Char) : Bool := isAlphabetic c || c == '_' || c == '$' || c == '@'

def isNamePart (c : Char) : Bool := isAlphanumeric c || c == '_' || c == '$'

def unescape? : Char → Option Char
  | 'n' => some '\n'
  | 't' => some '\t'
  | 'r' => some '\r'
  | '"' => some '"'
  | '\'' => some '\''
  | '\\' => some '\\'
  | _ => none

/-- The characters of a literal behind its opening quote, and how many characters they and the
closing quote take. A fault comes with the distance of the character to blame, if it is not the
opening quote. -/
def scanQuoted (quote : Char) : List Char → Except (LexFault × Option Nat) (List Char × Nat)
  | [] => .error (.unterminated, none)
  | c :: rest =>
    if c = quote then .ok ([], 1)
    else if c = '\\' then
      match rest with
      | [] => .error (.unterminated, none)
      | escaped :: rest =>
        match unescape? escaped with
        | none => .error (.badEscape escaped, some 1)
        | some meant =>
          match scanQuoted quote rest with
          | .ok (cs, width) => .ok (meant :: cs, width + 2)
          | .error (fault, distance) => .error (fault, distance.map (· + 2))
    else
      match scanQuoted quote rest with
      | .ok (cs, width) => .ok (c :: cs, width + 1)
      | .error (fault, distance) => .error (fault, distance.map (· + 1))

/-- The number at the front of a text that starts with a digit. A point belongs to it only before
another digit. -/
def scanNumber (cs : List Char) : Except LexFault (Token × Nat) :=
  let whole := cs.takeWhile Char.isDigit
  let fraction :=
    match cs.dropWhile Char.isDigit with
    | '.' :: rest => rest.takeWhile Char.isDigit
    | _ => []
  if fraction ≠ [] then
    .ok (.float (decimalFloat whole fraction), whole.length + 1 + fraction.length)
  else
    match readWord? whole with
    | some n => .ok (.integer n, whole.length)
    | none => .error (.badNumber (String.ofList whole))

/-- How many characters up to the end of a word IN that follows blanks, if one does. -/
def membershipAfter? (cs : List Char) : Option Nat :=
  match cs.dropWhile isBlank with
  | c :: rest =>
    let word := c :: rest.takeWhile isNamePart
    if isNameStart c ∧ (word = ['I', 'N'] ∨ word = ['i', 'n']) then
      some ((cs.takeWhile isBlank).length + 2)
    else none
  | [] => none

/-- The word at the front of a text: a keyword, or a name. The word NOT takes a following IN
along. -/
def scanWord (c : Char) (rest : List Char) : Token × Nat :=
  let word := c :: rest.takeWhile isNamePart
  match Token.keywords.find? fun keyword => keyword.1 == word with
  | some (_, .not) =>
    match membershipAfter? (rest.dropWhile isNamePart) with
    | some width => (.notIn, word.length + width)
    | none => (.not, word.length)
  | some (_, token) => (token, word.length)
  | none => (.name (String.ofList word), word.length)

/-- The token at the front of a text that starts with `c`, not a blank, and how many characters
it takes. A fault comes with the distance of the character to blame. -/
def scan (c : Char) (rest : List Char) : Except (LexFault × Nat) (Token × Nat) :=
  match Token.symbols.find? fun symbol => symbol.1.isPrefixOf (c :: rest) with
  | some (spelling, token) => .ok (token, spelling.length)
  | none =>
    if isQuote c then
      match scanQuoted c rest with
      | .ok (cs, width) => .ok (.text (String.ofList cs), width + 1)
      | .error (fault, distance) => .error (fault, distance.elim 0 (· + 1))
    else if c.isDigit then (scanNumber (c :: rest)).mapError fun fault => (fault, 0)
    else if isNameStart c then .ok (scanWord c rest)
    else .error (.unexpected c, 0)

/-- The tokens of a text at `offset`, after `skip` characters that belong to a token before. -/
def streamFrom (offset : Nat) : (skip : Nat) → List Char → TokenStream
  | _, [] => ⟨[], .ok offset⟩
  | skip + 1, _ :: rest => streamFrom (offset + 1) skip rest
  | 0, c :: rest =>
    if isBlank c then streamFrom (offset + 1) 0 rest
    else
      match scan c rest with
      | .error (fault, distance) => ⟨[], .error ⟨fault, offset + distance⟩⟩
      | .ok (token, width) =>
        let following := streamFrom (offset + 1) (width - 1) rest
        ⟨⟨offset, offset + width, token⟩ :: following.lexemes, following.ending⟩

end Lexeme

def tokensOf (cs : List Char) : TokenStream := Lexeme.streamFrom 0 0 cs

def tokenize (cs : List Char) : Except LexError (List Token) :=
  let stream := tokensOf cs
  stream.ending.map fun _ => stream.lexemes.map (·.token)

end PullQuery.Query
