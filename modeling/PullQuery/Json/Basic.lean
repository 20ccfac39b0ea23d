import PullQuery.Number.Shortest

/-! JSON values and their texts: on one line, or spread over lines that are indented by two blanks
a level. -/
namespace PullQuery

open PullQuery.Number

inductive Json where
  | null
  | boolean (b : Bool)
  | integer (n : Int)
  | float (x : Float)
  | text (s : String)
  | list (items : List Json)
  | object (members : List (String × Json))

namespace Json

instance : Inhabited Json := ⟨null⟩

def hexDigit (n : Nat) : Char := Nat.digitChar n

/-- A character inside quotes. Quotes, backslashes and control characters are escaped. -/
def escapedChar (c : Char) : List Char :=
  if c = '"' then ['\\', '"']
  else if c = '\\' then ['\\', '\\']
  else if c = '\n' then ['\\', 'n']
  else if c = '\t' then ['\\', 't']
  else if c = '\r' then ['\\', 'r']
  else if c = '\x08' then ['\\', 'b']
  else if c = '\x0c' then ['\\', 'f']
  else if c.toNat < 32 then ['\\', 'u', '0', '0', hexDigit (c.toNat / 16), hexDigit (c.toNat % 16)]
  else [c]

def quoted (s : String) : List Char := '"' :: s.toList.flatMap escapedChar ++ ['"']

def separated (separator : List Char) : List (List Char) → List Char
  | [] => []
  | [last] => last
  | first :: rest => first ++ separator ++ separated separator rest

def scalarText : Json → List Char
  | boolean true => ['t', 'r', 'u', 'e']
  | boolean false => ['f', 'a', 'l', 's', 'e']
  | integer n => intDigits n
  | float x => (documentText x).toList
  | text s => quoted s
  | _ => ['n', 'u', 'l', 'l']

mutual

def compact : Json → List Char
  | list items => '[' :: separated [','] (compactItems items) ++ [']']
  | object members => '{' :: separated [','] (compactMembers members) ++ ['}']
  | scalar => scalarText scalar

def compactItems : List Json → List (List Char)
  | [] => []
  | item :: rest => compact item :: compactItems rest

def compactMembers : List (String × Json) → List (List Char)
  | [] => []
  | (name, value) :: rest => (quoted name ++ ':' :: compact value) :: compactMembers rest

end

def lineBreak (level : Nat) : List Char := '\n' :: List.replicate (2 * level) ' '

def bracketed (opening closing : Char) (level : Nat) (texts : List (List Char)) : List Char :=
  if texts.isEmpty then [opening, closing]
  else
    opening :: lineBreak (level + 1) ++ separated (',' :: lineBreak (level + 1)) texts
      ++ lineBreak level ++ [closing]

mutual

def prettyAt (level : Nat) : Json → List Char
  | list items => bracketed '[' ']' level (prettyItems (level + 1) items)
  | object members => bracketed '{' '}' level (prettyMembers (level + 1) members)
  | scalar => scalarText scalar

def prettyItems (level : Nat) : List Json → List (List Char)
  | [] => []
  | item :: rest => prettyAt level item :: prettyItems level rest

def prettyMembers (level : Nat) : List (String × Json) → List (List Char)
  | [] => []
  | (name, value) :: rest =>
    (quoted name ++ ':' :: ' ' :: prettyAt level value) :: prettyMembers level rest

end

def compactText (json : Json) : String := String.ofList json.compact

def prettyText (json : Json) : String := String.ofList (json.prettyAt 0)

end Json
end PullQuery
