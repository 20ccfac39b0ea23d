import PullQuery.Json.Draft
import PullQuery.Number.Word
import PullQuery.Time.Reading

/-! Reading typed data from JSON values. A structure is an object, whose unknown members are
ignored, or a list of its fields in order, of which the last may be missing. A choice is its name,
or an object with that name for its one member and null for its value. -/
namespace PullQuery.Json

open PullQuery.Data
open PullQuery.Number
open PullQuery.Time

def text? : Json → Option String
  | text s => some s
  | _ => none

def boolean? : Json → Option Bool
  | boolean b => some b
  | _ => none

def word? : Json → Option Int64
  | integer n => Number.word? n
  | _ => none

def instant? : Json → Option Instant
  | text s => readLoose? s.toList
  | _ => none

def optional? {α : Type} (read : Json → Option α) : Json → Option (Option α)
  | null => some none
  | json => (read json).map some

def list? {α : Type} (read : Json → Option α) : Json → Option (List α)
  | list items => items.mapM read
  | _ => none

def fields? (names : List String) : Json → Option (Dictionary Json)
  | object members => some members
  | list items => if items.length ≤ names.length then some (names.zip items) else none
  | _ => none

def required? {α : Type} (fields : Dictionary Json) (name : String) (read : Json → Option α) :
    Option α := do
  read (← fields.find? name)

def defaulted? {α : Type} (fields : Dictionary Json) (name : String) (default : α)
    (read : Json → Option α) : Option α :=
  match fields.find? name with
  | none => some default
  | some json => read json

def choice? : Json → Option String
  | text s => some s
  | object [(name, null)] => some name
  | _ => none

/-- The name of a choice inside an event, where an empty object may stand for null too. -/
def choiceInEvent? : Json → Option String
  | object [(name, object [])] => some name
  | json => choice? json

end PullQuery.Json
