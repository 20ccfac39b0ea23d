import PullQuery.Query.Variables
import PullQuery.Time.Reading

/-! The arguments of the command line. An option stands behind two hyphens with its name or behind
one with its letter, its value behind it or in the next argument; two hyphens alone end the
options. Whatever is not understood makes the whole command line unusable. -/
namespace PullQuery.Command

open PullQuery.Query (Variables)

structure RecordOptions where
  input : Option String
  user : Option String
  bindings : List (String × String)
  now : Option Time.Instant
  pretty : Bool
  count : Bool

inductive Request where
  | version
  | filter (query : String) (syntaxOnly : Bool) (records : RecordOptions)
  | apply (path : String) (records : RecordOptions)
  | docs
  | doc (topic : String)

structure OptionRule where
  letter : Option Char
  name : String
  takesValue : Bool
  repeats : Bool

namespace OptionRule

def flag (letter : Option Char) (name : String) : OptionRule := ⟨letter, name, false, false⟩

def valued (letter : Option Char) (name : String) : OptionRule := ⟨letter, name, true, false⟩

def verbose : OptionRule := flag (some 'v') "verbose"

def records : List OptionRule :=
  [valued (some 'i') "input", valued (some 'u') "user", ⟨none, "var", true, true⟩,
   valued none "now", flag (some 'p') "pretty", flag (some 'c') "count", verbose]

end OptionRule

/-- The options that were given, the last first, each with its value if it takes one, and the
other arguments, the last first. -/
structure Given where
  options : List (String × Option String)
  operands : List String

namespace Given

def none : Given := ⟨[], []⟩

def add? (given : Given) (rule : OptionRule) (value : Option String) : Option Given :=
  if !rule.repeats && given.options.any (fun option => option.1 == rule.name) then .none
  else some { given with options := (rule.name, value) :: given.options }

def has (given : Given) (name : String) : Bool := given.options.any fun option => option.1 == name

def value? (given : Given) (name : String) : Option String :=
  (given.options.find? fun option => option.1 == name).bind (·.2)

def values (given : Given) (name : String) : List String :=
  (given.options.reverse.filter fun option => option.1 == name).filterMap (·.2)

end Given

/-- What an argument with letters leads to: all its options are read, or the last of them takes
its value from the next argument. -/
inductive Letters where
  | read (given : Given)
  | awaiting (given : Given) (rule : OptionRule)

def readLetters? (rules : List OptionRule) (given : Given) : List Char → Option Letters
  | [] => some (.read given)
  | c :: rest => do
    let rule ← rules.find? fun rule => rule.letter == some c
    if rule.takesValue then
      match rest with
      | [] => return .awaiting given rule
      | '=' :: value => return .read (← given.add? rule (some (String.ofList value)))
      | value => return .read (← given.add? rule (some (String.ofList value)))
    else readLetters? rules (← given.add? rule none) rest

def readName? (rules : List OptionRule) (given : Given) (cs : List Char) : Option Letters := do
  let name := cs.takeWhile (· != '=')
  let rule ← rules.find? fun rule => rule.name.toList == name
  match rule.takesValue, cs.drop name.length with
  | true, [] => return .awaiting given rule
  | true, _ :: value => return .read (← given.add? rule (some (String.ofList value)))
  | false, [] => return .read (← given.add? rule none)
  | false, _ :: _ => none

def looksLikeOption (cs : List Char) : Bool := cs.head? == some '-' && cs.length != 1

def readArguments? (rules : List OptionRule) (limit : Nat) :
    (awaiting : Option OptionRule) → Given → List String → Option Given
  | none, given, [] => some given
  | some _, _, [] => none
  | some rule, given, argument :: rest =>
    if looksLikeOption argument.toList then none
    else do readArguments? rules limit none (← given.add? rule (some argument)) rest
  | none, given, argument :: rest =>
    match argument.toList with
    | ['-', '-'] =>
      if given.operands.length + rest.length ≤ limit then
        some { given with operands := rest.reverse ++ given.operands }
      else none
    | '-' :: '-' :: cs =>
      match readName? rules given cs with
      | some (.read given) => readArguments? rules limit none given rest
      | some (.awaiting given rule) => readArguments? rules limit (some rule) given rest
      | none => none
    | '-' :: c :: cs =>
      match readLetters? rules given (c :: cs) with
      | some (.read given) => readArguments? rules limit none given rest
      | some (.awaiting given rule) => readArguments? rules limit (some rule) given rest
      | none => none
    | _ =>
      if given.operands.length < limit then
        readArguments? rules limit none { given with operands := argument :: given.operands } rest
      else none

def readVariable? (argument : String) : Option (String × String) :=
  let name := argument.toList.takeWhile (· != '=')
  match name, argument.toList.drop name.length with
  | _ :: _, _ :: value => some (String.ofList name, String.ofList value)
  | _, _ => none

def readPath? (argument : String) : Option String := if argument = "" then none else some argument

def readValue? {α : Type} (given : Given) (name : String) (read : String → Option α) :
    Option (Option α) :=
  match given.value? name with
  | none => some none
  | some value => (read value).map some

def readRecords? (given : Given) (environmentUser : Option String) : Option RecordOptions := do
  return {
    input := ← readValue? given "input" readPath?
    user := (given.value? "user").or environmentUser
    bindings := ← (given.values "var").mapM readVariable?
    now := ← readValue? given "now" fun text => Time.readStrict? text.toList
    pretty := given.has "pretty"
    count := given.has "count" }

def readCommand? (environmentUser : Option String) (name : String) (arguments : List String) :
    Option Request := do
  match name with
  | "filter" =>
    let rules := .flag none "syntax-only" :: OptionRule.records
    let given ← readArguments? rules 1 none .none arguments
    let records ← readRecords? given environmentUser
    match given.operands with
    | [query] => return .filter query (given.has "syntax-only") records
    | _ => none
  | "apply" =>
    let rules := .valued (some 'f') "filter" :: OptionRule.records
    let given ← readArguments? rules 0 none .none arguments
    let records ← readRecords? given environmentUser
    let path ← readPath? (← given.value? "filter")
    return .apply path records
  | "docs" =>
    let _ ← readArguments? [.verbose] 0 none .none arguments
    return .docs
  | "doc" =>
    let given ← readArguments? [.verbose] 1 none .none arguments
    match given.operands with
    | [topic] => return .doc topic
    | _ => none
  | _ => none

def leadingLetters? (given : Given) : List Char → Option (Given ⊕ Request)
  | [] => some (.inl given)
  | c :: rest =>
    if c = 'V' then some (.inr .version)
    else if c = 'v' then (given.add? .verbose none).bind (leadingLetters? · rest)
    else none

def readCommandLine? (environmentUser : Option String) : Given → List String → Option Request
  | _, [] => none
  | given, argument :: rest =>
    match argument.toList with
    | ['-', '-'] => none
    | '-' :: '-' :: _ =>
      if argument = "--version" then some .version
      else if argument = "--verbose" then
        (given.add? .verbose none).bind (readCommandLine? environmentUser · rest)
      else none
    | '-' :: c :: cs =>
      match leadingLetters? given (c :: cs) with
      | some (.inr request) => some request
      | some (.inl given) => readCommandLine? environmentUser given rest
      | none => none
    | _ => readCommand? environmentUser argument rest

def readRequest? (environmentUser : Option String) (arguments : List String) : Option Request :=
  readCommandLine? environmentUser .none arguments

end PullQuery.Command
