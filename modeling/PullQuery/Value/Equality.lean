import PullQuery.Text.LowerCase
import PullQuery.Value.Basic

/-! The equality of the query language, and the stricter sameness and looser membership that
clauses use. -/
namespace PullQuery.Value

open PullQuery.Text
open PullQuery.Time

mutual

/-- Whether two values are equal: texts in any letter case, numbers by what they amount to, times
also with the texts that name them, and lists item by item. Values of other kinds differ. -/
def equals : Value → Value → Bool
  | text s, text t => sameFolded s t
  | integer m, integer n => m == n
  | integer m, float y => m.toFloat == y
  | float x, integer n => x == n.toFloat
  | float x, float y => x == y
  | boolean a, boolean b => a == b
  | instant t, instant u => t == u
  | instant t, text s => readInstant? s == some t
  | text s, instant t => readInstant? s == some t
  | null, null => true
  | list xs, list ys => listEquals xs ys
  | _, _ => false

def listEquals : List Value → List Value → Bool
  | [], [] => true
  | x :: xs, y :: ys => equals x y && listEquals xs ys
  | _, _ => false

end

mutual

def same : Value → Value → Bool
  | null, null => true
  | boolean a, boolean b => a == b
  | integer m, integer n => m == n
  | float x, float y => x == y
  | text s, text t => s == t
  | instant t, instant u => t == u
  | list xs, list ys => listSame xs ys
  | _, _ => false

def listSame : List Value → List Value → Bool
  | [], [] => true
  | x :: xs, y :: ys => same x y && listSame xs ys
  | _, _ => false

end

def isNull : Value → Bool
  | null => true
  | _ => false

def folded (value : Value) : String := lower value.asText

/-- Whether a value is among others: the same, or with the same text in any letter case, so that
the number 33 is the text "33". Nothing is only among others that hold nothing. -/
def isAmong (needle : Value) (haystack : List Value) : Bool :=
  if needle.isNull then haystack.any isNull
  else
    haystack.any fun value =>
      same value needle || (!value.isNull && value.folded == needle.folded)

/-- Whether the text of a value occurs in that of another in any letter case. Nothing neither
occurs nor contains. -/
def contains (whole part : Value) : Bool :=
  !whole.isNull && !part.isNull && occursIn part.folded.toList whole.folded.toList

end PullQuery.Value
