import PullQuery.Filter.Clause
import PullQuery.Json.Decode
import PullQuery.Query.Evaluation
import PullQuery.Record.Document

/-! Filters as they are stored, the records they select, and their JSON. A stored filter is read in
the order of its text, so that the first thing that does not fit decides whether it is no JSON or no
filter. -/
namespace PullQuery.Filter

open PullQuery.Json (Draft DocumentFault)
open PullQuery.Query (EvalError OperatorTable ParseError Variables compile select)

/-- A filter with a name. It filters by its clauses if it has any list of them, else by its
query. -/
structure Saved where
  id : String
  name : String
  showAsNotification : Option Bool
  showAsNotificationDecrease : Option Bool
  notificationText : Option String
  filters : Option (List Clause)
  query : String
  deriving DecidableEq

inductive Predicate where
  | clauses (clauses : List Clause)
  | query (source : String)
  deriving DecidableEq

def Saved.predicate (saved : Saved) : Predicate :=
  match saved.filters with
  | some clauses => .clauses clauses
  | none => .query saved.query

inductive FilterError where
  | parse (error : ParseError)
  | eval (error : EvalError)
  deriving DecidableEq

def FilterError.message : FilterError → String
  | parse error =>
    let reason := error.message
    s!"Parse error: {reason}"
  | eval error =>
    let reason := error.message
    s!"Evaluation error: {reason}"

def run (table : OperatorTable) (bindings : Variables) (now : Time.Instant)
    (records : List PullRequest) : Predicate → Except FilterError (List PullRequest)
  | .clauses clauses => .ok (byClauses records clauses bindings)
  | .query source => do
    let compiled ← (compile table bindings source).mapError .parse
    (select compiled.expr now records).mapError .eval

/-! Writing. -/

def Comparator.text : Comparator → String
  | isTrue => "true"
  | isFalse => "false"
  | includes => "includes"
  | includesAll => "includes all"
  | excludes => "excludes"

def Comparator.ofText? : String → Option Comparator
  | "true" => some isTrue
  | "false" => some isFalse
  | "includes" => some includes
  | "includes all" => some includesAll
  | "excludes" => some excludes
  | _ => none

def Scalar.json : Scalar → Json
  | boolean b => .boolean b
  | integer n => .integer n.toInt
  | float x => .float x
  | text s => .text s

def Clause.json (clause : Clause) : Json :=
  .ofFields [("type", some (.text clause.field)), ("compare", some (.text clause.compare.text)),
    ("value", clause.value.map Scalar.json),
    ("values", some (.list (clause.values.map Scalar.json)))]

def Clause.listJson (clauses : List Clause) : Json := .list (clauses.map Clause.json)

def Saved.json (saved : Saved) : Json :=
  .ofFields [("id", some (.text saved.id)), ("name", some (.text saved.name)),
    ("showAsNotification", saved.showAsNotification.map .boolean),
    ("showAsNotificationDecrease", saved.showAsNotificationDecrease.map .boolean),
    ("notificationText", saved.notificationText.map .text),
    ("filters", some (.ofOption (saved.filters.map Clause.listJson))),
    ("query", some (.text saved.query))]

/-! Reading. -/

abbrev Reading (α : Type) := Except DocumentFault α

def misfit {α : Type} : Draft → Reading α
  | .missing | .number none | .text none => .error .notJson
  | _ => .error .misfit

def readText : Draft → Reading String
  | .text (some s) => .ok s
  | draft => misfit draft

def readBoolean : Draft → Reading Bool
  | .boolean b => .ok b
  | draft => misfit draft

def readOptional {α : Type} (read : Draft → Reading α) : Draft → Reading (Option α)
  | .null => .ok none
  | draft => (read draft).map some

def readItems {α : Type} (read : Draft → Reading α) (closed : Bool) : List Draft → Reading (List α)
  | [] => if closed then .ok [] else .error .notJson
  | item :: rest => do
    let value ← read item
    let values ← readItems read closed rest
    return value :: values

def readList {α : Type} (read : Draft → Reading α) : Draft → Reading (List α)
  | .list items closed => readItems read closed items
  | draft => misfit draft

/-- The name of a comparator, or an object with that name for its only member and null for its
value. -/
def readComparator : Draft → Reading Comparator
  | .text (some name) => known name
  | .object ((some name, value) :: others) closed => do
    let comparator ← known name
    match value with
    | .null => pure ()
    | value => misfit value
    if closed ∧ others.isEmpty then return comparator else throw .notJson
  | _ => .error .notJson
where
  known (name : String) : Reading Comparator :=
    match Comparator.ofText? name with
    | some comparator => .ok comparator
    | none => .error .misfit

/-- A value of a clause inside `depth` lists and objects. A list or an object is read to its end
before it is refused. -/
def readScalar (depth : Nat) (draft : Draft) : Reading Scalar :=
  match draft.json? depth with
  | some (.boolean b) => .ok (.boolean b)
  | some (.text s) => .ok (.text s)
  | some (.float x) => .ok (.float x)
  | some (.integer n) =>
    match Number.word? n with
    | some w => .ok (.integer w)
    | none => .ok (.float (Float.ofInt n))
  | some _ => .error .misfit
  | none => .error .notJson

/-- What is known of a structure: the fields that were read, each with its place in the order of
the fields. `read` reads the field at a place into them. -/
structure FieldReader (σ : Type) where
  names : List String
  read : Nat → Draft → σ → Reading σ

/-- Members one after the other. A field may be there once; what is not a field is passed over. -/
def FieldReader.readMembers {σ : Type} (reader : FieldReader σ) (closed : Bool) :
    (seen : List Nat) → σ → List (Option String × Draft) → Reading σ
  | _, state, [] => if closed then .ok state else .error .notJson
  | _, _, (none, _) :: _ => .error .notJson
  | seen, state, (some name, value) :: rest =>
    match reader.names.findIdx? (· == name) with
    | none =>
      if value.isWhole then reader.readMembers closed seen state rest else .error .notJson
    | some place =>
      if place ∈ seen then .error .misfit
      else do
        let next ← reader.read place value state
        reader.readMembers closed (place :: seen) next rest

def FieldReader.readFields {σ : Type} (reader : FieldReader σ) (closed : Bool) :
    (place : Nat) → σ → List Draft → Reading σ
  | _, state, [] => if closed then .ok state else .error .notJson
  | place, state, item :: rest =>
    if place < reader.names.length then do
      let next ← reader.read place item state
      reader.readFields closed (place + 1) next rest
    else .error .notJson

/-- The fields of a structure, from an object or from a list, handed to `finish` when they are
all there. -/
def FieldReader.readStructure {σ α : Type} (reader : FieldReader σ) (initial : σ)
    (finish : σ → Reading α) : Draft → Reading α
  | .object members closed => do finish (← reader.readMembers closed [] initial members)
  | .list items closed => do finish (← reader.readFields closed 0 initial items)
  | draft => misfit draft

structure PartialClause where
  field : Option String
  compare : Option Comparator
  value : Option Scalar
  values : List Scalar

def clauseReader : FieldReader PartialClause where
  names := ["type", "compare", "value", "values"]
  read place draft clause :=
    match place with
    | 0 => (readText draft).map fun field => { clause with field := some field }
    | 1 => (readComparator draft).map fun compare => { clause with compare := some compare }
    | 2 => (readOptional (readScalar 3) draft).map fun value => { clause with value }
    | _ => (readList (readScalar 4) draft).map fun values => { clause with values }

def PartialClause.finish (clause : PartialClause) : Reading Clause :=
  match clause.field, clause.compare with
  | some field, some compare => .ok ⟨field, compare, clause.value, clause.values⟩
  | _, _ => .error .misfit

def readClause : Draft → Reading Clause :=
  clauseReader.readStructure ⟨none, none, none, []⟩ PartialClause.finish

def savedReader : FieldReader Saved where
  names := ["id", "name", "showAsNotification", "showAsNotificationDecrease", "notificationText",
    "filters", "query"]
  read place draft saved :=
    match place with
    | 0 => (readText draft).map fun id => { saved with id }
    | 1 => (readText draft).map fun name => { saved with name }
    | 2 => (readOptional readBoolean draft).map fun shown =>
      { saved with showAsNotification := shown }
    | 3 => (readOptional readBoolean draft).map fun shown =>
      { saved with showAsNotificationDecrease := shown }
    | 4 => (readOptional readText draft).map fun text => { saved with notificationText := text }
    | 5 => (readOptional (readList readClause) draft).map fun filters => { saved with filters }
    | _ => (readText draft).map fun query => { saved with query }

def Saved.blank : Saved := ⟨"", "", none, none, none, none, ""⟩

def readSaved : Draft → Reading Saved := savedReader.readStructure Saved.blank .ok

def Saved.read (text : String) : Reading Saved := do
  let (draft, whole) := Draft.read text.toList
  let saved ← readSaved draft
  if whole then return saved else throw .notJson

def Saved.ofJson? (json : Json) : Option Saved := (readSaved (.ofJson json)).toOption

def Clause.listOfJson? (json : Json) : Option (List Clause) :=
  (readList readClause (.ofJson json)).toOption

end PullQuery.Filter
