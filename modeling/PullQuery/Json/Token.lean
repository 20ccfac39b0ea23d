import PullQuery.Json.Number

/-! The tokens of a JSON text. A token that the grammar allows but that stands for no value, as a
number out of range does, is a token all the same: it is harmless where its value is not read. -/
namespace PullQuery.Json

inductive Token where
  | openList
  | closeList
  | openObject
  | closeObject
  | colon
  | comma
  | null
  | boolean (b : Bool)
  | number (n : Option Number)
  | text (s : Option String)

structure TokenStream where
  tokens : List Token
  whole : Bool

def isBlank (c : Char) : Bool := c == ' ' || c == '\n' || c == '\t' || c == '\r'

def hexValue? (c : Char) : Option Nat :=
  if c.isDigit then some (c.toNat - '0'.toNat)
  else if 'a' ≤ c ∧ c ≤ 'f' then some (c.toNat - 'a'.toNat + 10)
  else if 'A' ≤ c ∧ c ≤ 'F' then some (c.toNat - 'A'.toNat + 10)
  else none

def hexUnit? : List Char → Option (Nat × List Char)
  | a :: b :: c :: d :: rest => do
    let high := (← hexValue? a) * 16 + (← hexValue? b)
    let unit := (high * 16 + (← hexValue? c)) * 16 + (← hexValue? d)
    return (unit, rest)
  | _ => none

def unescape? : Char → Option Char
  | '"' => some '"'
  | '\\' => some '\\'
  | '/' => some '/'
  | 'b' => some '\x08'
  | 'f' => some '\x0c'
  | 'n' => some '\n'
  | 'r' => some '\r'
  | 't' => some '\t'
  | _ => none

/-- What an escape stands for, none for half of a surrogate pair without the other, and how many
characters it takes behind its backslash. No result where it is no escape. -/
def scanEscape? : List Char → Option (Option Char × Nat)
  | 'u' :: rest => do
    let (unit, rest) ← hexUnit? rest
    if 0xd800 ≤ unit ∧ unit < 0xdc00 then
      match rest with
      | '\\' :: 'u' :: rest =>
        match hexUnit? rest with
        | some (low, _) =>
          if 0xdc00 ≤ low ∧ low < 0xe000 then
            return (some (Char.ofNat (0x10000 + (unit - 0xd800) * 0x400 + (low - 0xdc00))), 11)
          else return (none, 5)
        | none => return (none, 5)
      | _ => return (none, 5)
    else if 0xdc00 ≤ unit ∧ unit < 0xe000 then return (none, 5)
    else return (some (Char.ofNat unit), 5)
  | c :: _ => (unescape? c).map fun meant => (some meant, 1)
  | [] => none

/-- The characters of a text behind its opening quote, none if an escape stands for no character,
and how many characters they and the closing quote take. `skip` characters belong to an escape
before. No result where the text is not closed or holds a control character. -/
def scanText? : (skip : Nat) → List Char → Option (Option (List Char) × Nat)
  | _, [] => none
  | skip + 1, _ :: rest => (scanText? skip rest).map fun (cs, width) => (cs, width + 1)
  | 0, c :: rest =>
    if c = '"' then some (some [], 1)
    else if c.toNat < 32 then none
    else if c = '\\' then
      match scanEscape? rest with
      | none => none
      | some (meant, taken) =>
        (scanText? taken rest).map fun (cs, width) =>
          ((do return (← meant) :: (← cs)), width + 1)
    else (scanText? 0 rest).map fun (cs, width) => (cs.map (c :: ·), width + 1)

def symbols : List (List Char × Token) :=
  [(['['], .openList), ([']'], .closeList), (['\x7b'], .openObject), (['\x7d'], .closeObject),
   ([':'], .colon), ([','], .comma), (['n', 'u', 'l', 'l'], .null),
   (['t', 'r', 'u', 'e'], .boolean true), (['f', 'a', 'l', 's', 'e'], .boolean false)]

def scan? (c : Char) (rest : List Char) : Option (Token × Nat) :=
  match symbols.find? fun symbol => symbol.1.isPrefixOf (c :: rest) with
  | some (spelling, token) => some (token, spelling.length)
  | none =>
    if c = '"' then
      (scanText? 0 rest).map fun (cs, width) => (.text (cs.map String.ofList), width + 1)
    else if c.isDigit ∨ c = '-' then
      (scanNumber? (c :: rest)).map fun (n, width) => (.number n, width)
    else none

def streamFrom : (skip : Nat) → List Char → TokenStream
  | _, [] => ⟨[], true⟩
  | skip + 1, _ :: rest => streamFrom skip rest
  | 0, c :: rest =>
    if isBlank c then streamFrom 0 rest
    else
      match scan? c rest with
      | none => ⟨[], false⟩
      | some (token, width) =>
        let following := streamFrom (width - 1) rest
        ⟨token :: following.tokens, following.whole⟩

end PullQuery.Json
