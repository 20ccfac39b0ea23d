import PullQuery.Data.Ordered
import PullQuery.Json.Basic
import PullQuery.Json.Token

/-! The JSON of a text as far as it can be read. A list or an object that the text leaves open or
goes on with in a wrong way is kept with what it holds up to there, so that a reader that stops at
the first thing it cannot use can tell which fault comes first. -/
namespace PullQuery.Json

open PullQuery.Data

inductive Draft where
  | missing
  | null
  | boolean (b : Bool)
  | number (n : Option Number)
  | text (s : Option String)
  | list (items : List Draft) (closed : Bool)
  | object (members : List (Option String × Draft)) (closed : Bool)

/-- Why a document is refused: it is no JSON, or its JSON does not fit what it should hold. -/
inductive DocumentFault where
  | notJson
  | misfit
  deriving DecidableEq, Repr

namespace Draft

instance : Inhabited Draft := ⟨missing⟩

/-- An open list with its items, the last first; an open object with its members, the last first,
and the name that waits for its value. -/
inductive Frame where
  | list (items : List Draft)
  | object (members : List (Option String × Draft)) (name : Option String)

inductive Expecting where
  | value
  | itemOrEnd
  | name
  | nameOrEnd
  | colon
  | commaOrEnd
  | nothing
  deriving DecidableEq

/-- The open lists and objects, innermost first, what may come next, and the finished value. -/
structure State where
  frames : List Frame
  expecting : Expecting
  result : Draft

def State.put (frames : List Frame) (value : Draft) : State :=
  match frames with
  | [] => ⟨[], .nothing, value⟩
  | .list items :: outer => ⟨.list (value :: items) :: outer, .commaOrEnd, missing⟩
  | .object members name :: outer =>
    ⟨.object ((name, value) :: members) none :: outer, .commaOrEnd, missing⟩

def State.begin? (frames : List Frame) : Token → Option State
  | .null => some (.put frames null)
  | .boolean b => some (.put frames (boolean b))
  | .number n => some (.put frames (number n))
  | .text s => some (.put frames (text s))
  | .openList => some ⟨.list [] :: frames, .itemOrEnd, missing⟩
  | .openObject => some ⟨.object [] none :: frames, .nameOrEnd, missing⟩
  | _ => none

def State.close? (frames : List Frame) : Token → Option State
  | .closeList =>
    match frames with
    | .list items :: outer => some (.put outer (list items.reverse true))
    | _ => none
  | .closeObject =>
    match frames with
    | .object members _ :: outer => some (.put outer (object members.reverse true))
    | _ => none
  | _ => none

def State.name? (frames : List Frame) : Token → Option State
  | .text name =>
    match frames with
    | .object members _ :: outer => some ⟨.object members name :: outer, .colon, missing⟩
    | _ => none
  | _ => none

def State.step? (s : State) (token : Token) : Option State :=
  match s.expecting with
  | .value => State.begin? s.frames token
  | .itemOrEnd => (State.close? s.frames token).orElse fun _ => State.begin? s.frames token
  | .name => State.name? s.frames token
  | .nameOrEnd => (State.close? s.frames token).orElse fun _ => State.name? s.frames token
  | .colon =>
    match token with
    | .colon => some { s with expecting := .value }
    | _ => none
  | .commaOrEnd =>
    match token, s.frames with
    | .comma, .list _ :: _ => some { s with expecting := .value }
    | .comma, .object _ _ :: _ => some { s with expecting := .name }
    | token, frames => State.close? frames token
  | .nothing => none

def unfinished : List Frame → Draft → Draft
  | [], value => value
  | .list items :: outer, value => unfinished outer (list (value :: items).reverse false)
  | .object members name :: outer, value =>
    unfinished outer (object ((name, value) :: members).reverse false)

def State.broken (s : State) : Draft :=
  match s.frames, s.expecting with
  | [], _ => s.result
  | frames, .value | frames, .colon => unfinished frames missing
  | .list items :: outer, _ => unfinished outer (list items.reverse false)
  | .object members _ :: outer, _ => unfinished outer (object members.reverse false)

def readFrom (whole : Bool) : State → List Token → Draft × Bool
  | s, [] => (s.broken, whole && s.expecting == .nothing)
  | s, token :: rest =>
    match s.step? token with
    | some next => readFrom whole next rest
    | none => (s.broken, false)

def read (cs : List Char) : Draft × Bool :=
  let stream := streamFrom 0 cs
  readFrom stream.whole ⟨[], .value, missing⟩ stream.tokens

/-- Lists and objects may be nested less deep than this. -/
def depthLimit : Nat := 128

mutual

/-- The value of a draft that stands inside `depth` lists and objects. None if the text breaks off
in it, if a number or a text in it stands for no value, or if it is nested too deep. Of two members
of one name the later counts. -/
def json? (depth : Nat) : Draft → Option Json
  | missing => none
  | null => some .null
  | boolean b => some (.boolean b)
  | number (some (.integer n)) => some (.integer n)
  | number (some (.float x)) => some (.float x)
  | number none => none
  | text s => s.map .text
  | list items closed =>
    if closed ∧ depth + 1 < depthLimit then (items? (depth + 1) items).map .list else none
  | object members closed =>
    if closed ∧ depth + 1 < depthLimit then
      (members? (depth + 1) members).map fun members => .object (Dictionary.ofList members)
    else none

def items? (depth : Nat) : List Draft → Option (List Json)
  | [] => some []
  | item :: rest => do return (← json? depth item) :: (← items? depth rest)

def members? (depth : Nat) : List (Option String × Draft) → Option (List (String × Json))
  | [] => some []
  | (name, value) :: rest => do
    return (← name, ← json? depth value) :: (← members? depth rest)

end

mutual

/-- Whether the text breaks off in a draft. Depth, ranges and escapes do not matter. -/
def isWhole : Draft → Bool
  | missing => false
  | list items closed => closed && areWhole items
  | object members closed => closed && membersAreWhole members
  | _ => true

def areWhole : List Draft → Bool
  | [] => true
  | item :: rest => isWhole item && areWhole rest

def membersAreWhole : List (Option String × Draft) → Bool
  | [] => true
  | (_, value) :: rest => isWhole value && membersAreWhole rest

end

mutual

def ofJson : Json → Draft
  | .null => null
  | .boolean b => boolean b
  | .integer n => number (some (.integer n))
  | .float x => number (some (.float x))
  | .text s => text (some s)
  | .list items => list (ofItems items) true
  | .object members => object (ofMembers members) true

def ofItems : List Json → List Draft
  | [] => []
  | item :: rest => ofJson item :: ofItems rest

def ofMembers : List (String × Json) → List (Option String × Draft)
  | [] => []
  | (name, value) :: rest => (some name, ofJson value) :: ofMembers rest

end

end Draft

def read? (text : String) : Option Json :=
  match Draft.read text.toList with
  | (draft, true) => draft.json? 0
  | (_, false) => none

end PullQuery.Json
