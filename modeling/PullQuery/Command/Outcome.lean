import PullQuery.Command.Topic
import PullQuery.Filter.Saved

/-! What the commands do with the texts they are given: check a query, or select the records of a
JSON text by a query or by a stored filter. -/
namespace PullQuery.Command

open PullQuery.Filter
open PullQuery.Json (DocumentFault)
open PullQuery.Query

inductive FileFault where
  | missing
  | isDirectory
  | notDirectory
  | other (reason : String)
  deriving DecidableEq, Repr

def FileFault.message : FileFault → String
  | missing => "No such file or directory (os error 2)"
  | isDirectory => "Is a directory (os error 21)"
  | notDirectory => "Not a directory (os error 20)"
  | other reason => reason

inductive CommandError where
  | filter (error : FilterError)
  | document (fault : DocumentFault)
  | file (fault : FileFault)
  | noInput
  | unknownTopic (name : String)
  deriving DecidableEq

def CommandError.message : CommandError → String
  | filter error => error.message
  | document .notJson => "Invalid JSON: the text is not JSON"
  | document .misfit => "Invalid JSON: the value does not fit"
  | file fault =>
    let reason := fault.message
    s!"IO error: {reason}"
  | noInput => "No input provided. Use --input or pipe JSON records to stdin."
  | unknownTopic name => s!"Unknown topic: '{name}'\nRun 'prq docs' to see available topics."

structure Options where
  input : Option String
  bindings : Variables
  now : Time.Instant
  syntaxOnly : Bool

inductive Outcome where
  | syntaxValid
  | matched (records : List PullRequest)

def topicText (name : String) : Except CommandError String :=
  match Topic.ofName? name with
  | some topic => .ok topic.text
  | none => .error (.unknownTopic name)

def selectRecords (options : Options) (predicate : Predicate) : Except CommandError Outcome :=
  match options.input with
  | none => .error .noInput
  | some text => do
    let records ← (Records.read text).mapError .document
    let kept ← (run .standard options.bindings options.now records predicate).mapError .filter
    return .matched kept

def checkSyntax (options : Options) : Predicate → Except CommandError Outcome
  | .clauses _ => .ok .syntaxValid
  | .query source => do
    let _ ← (compile .standard options.bindings source).mapError fun error =>
      .filter (.parse error)
    return .syntaxValid

def execute (options : Options) (predicate : Predicate) : Except CommandError Outcome :=
  if options.syntaxOnly then checkSyntax options predicate else selectRecords options predicate

def selectByQuery (options : Options) (query : String) : Except CommandError Outcome :=
  execute options (.query query)

def selectBySaved (options : Options) (text : String) : Except CommandError Outcome := do
  let saved ← (Saved.read text).mapError .document
  execute options saved.predicate

end PullQuery.Command
