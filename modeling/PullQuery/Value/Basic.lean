import PullQuery.Number.Binary64
import PullQuery.Number.Reading
import PullQuery.Number.Shortest
import PullQuery.Text.Parts
import PullQuery.Time.Reading
import PullQuery.Time.Text

/-! The values that queries compute with, and how one kind is taken for another. -/
namespace PullQuery

open PullQuery.Number
open PullQuery.Text
open PullQuery.Time

inductive Value where
  | null
  | boolean (b : Bool)
  | integer (n : Int64)
  | float (x : Float)
  | text (s : String)
  | instant (t : Instant)
  | list (items : List Value)

namespace Value

instance : Inhabited Value := ⟨null⟩

def kindName : Value → String
  | null => "null"
  | boolean _ => "boolean"
  | integer _ => "integer"
  | float _ => "float"
  | text _ => "string"
  | instant _ => "timestamp"
  | list _ => "list"

/-- Whether the value counts as true: it is there, and it is neither zero nor empty. -/
def isTruthy : Value → Bool
  | null => false
  | boolean b => b
  | integer n => n != 0
  | float x => x != 0 && !x.isNaN
  | text s => !s.isEmpty
  | instant _ => true
  | list items => !items.isEmpty

/-- The value as a float: numbers, truth values as one and zero, and texts that write a number. -/
def float? : Value → Option Float
  | integer n => some n.toFloat
  | float x => some x
  | boolean b => some (if b then 1 else 0)
  | text s => readFloat? (trimBlanks s.toList)
  | _ => none

/-- The value as an integer: integers, and floats without a fraction cut to the range. -/
def integer? : Value → Option Int64
  | integer n => some n
  | float x => if isWhole x then some x.toInt64 else none
  | _ => none

mutual

/-- The text of a value. Nothing has no text, and the items of a list stand between commas. -/
def asText : Value → String
  | null => ""
  | boolean b => if b then "true" else "false"
  | integer n => wordText n
  | float x => floatText x
  | text s => s
  | instant t => t.text
  | list items => asTexts items

def asTexts : List Value → String
  | [] => ""
  | [item] => asText item
  | item :: rest => asText item ++ "," ++ asTexts rest

end

theorem asTexts_cons_cons (first second : Value) (rest : List Value) :
    asTexts (first :: second :: rest) = asText first ++ "," ++ asTexts (second :: rest) := rfl

/-- A list of one item stands for the item. -/
def unwrapped : Value → Value
  | list [item] => item
  | value => value

def items : Value → List Value
  | list items => items
  | value => [value]

/-- The instant that a value means at `now`. Numbers are seconds from now, floats to the
millisecond, and texts are dates or times. -/
def instant? (now : Instant) : Value → Option Instant
  | instant t => some t
  | integer n => now.addSeconds? n.toInt
  | float x => if x.isFinite then now.addMillis? (nearestWord (x * 1000)).toInt else none
  | text s => readInstant? s
  | _ => none

end Value
end PullQuery
