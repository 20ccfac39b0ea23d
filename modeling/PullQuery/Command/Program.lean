import PullQuery.Command.Arguments
import PullQuery.Command.Outcome

/-! From a request to what the program prints, given the files and the standard input, and how paths
lead to the files of a directory. -/
namespace PullQuery.Command

open PullQuery.Query (Variables)

/-- How the program ends: with a text on standard output, with a text on standard error and the
exit code one, or with the exit code two for a command line that is not usable. -/
inductive Reply where
  | success (output : String)
  | failure (error : String)
  | unusable
  deriving DecidableEq

structure Sources where
  file : String → Except FileFault String
  standardInput : Except FileFault String
  clock : Time.Instant

abbrev Directory := List (String × String)

def pathParts (path : String) : List String := path.splitToList (· == '/')

/-- The text of the file at a path. A path that goes on behind a file, if only with a slash, would
need that file to be a directory. -/
def Directory.read (files : Directory) (path : String) : Except FileFault String :=
  let parts := (pathParts path).filter fun part => part ≠ "" ∧ part ≠ "."
  match parts, path.startsWith "/" with
  | [], _ => .error .isDirectory
  | _, true => .error .missing
  | name :: rest, false =>
    match files.find? fun file => file.1 == name with
    | none => .error (if name = ".." ∧ rest.isEmpty then .isDirectory else .missing)
    | some (_, content) =>
      if rest.isEmpty ∧ (pathParts path).getLast? = some name then .ok content
      else .error .notDirectory

namespace Request

def paths : Request → List String
  | filter _ syntaxOnly records => if syntaxOnly then [] else records.input.toList
  | apply path records => path :: records.input.toList
  | _ => []

def readsStandardInput : Request → Bool
  | filter _ syntaxOnly records => !syntaxOnly && records.input.isNone
  | apply _ records => records.input.isNone
  | _ => false

end Request

def RecordOptions.readInput (records : RecordOptions) (sources : Sources) :
    Except CommandError String :=
  let text :=
    match records.input with
    | some path => sources.file path
    | none => sources.standardInput
  text.mapError .file

/-- The variables of a command line. Those named on it come after the user. -/
def RecordOptions.table (records : RecordOptions) : Variables :=
  let user : Variables := (records.user.map Variables.ofUser).getD []
  records.bindings.foldl (fun table (name, value) => Data.Dictionary.insert table name value) user

def RecordOptions.options (records : RecordOptions) (sources : Sources) (input : Option String)
    (syntaxOnly : Bool) : Options :=
  ⟨input, records.table, records.now.getD sources.clock, syntaxOnly⟩

def RecordOptions.print (records : RecordOptions) : Outcome → String
  | .syntaxValid => "Syntax is valid\n"
  | .matched found =>
    if records.count then s!"{found.length}\n"
    else
      let json := Records.json found
      (if records.pretty then json.prettyText else json.compactText) ++ "\n"

def Request.output (sources : Sources) : Request → Except CommandError String
  | .version => .ok "prq 0.1.0\n"
  | .docs => .ok Topic.overview
  | .doc topic => topicText topic
  | .filter query syntaxOnly records => do
    let input ← if syntaxOnly then pure none else (records.readInput sources).map some
    let outcome ← selectByQuery (records.options sources input syntaxOnly) query
    return records.print outcome
  | .apply path records => do
    let saved ← (sources.file path).mapError .file
    let input ← records.readInput sources
    let outcome ← selectBySaved (records.options sources (some input) false) saved
    return records.print outcome

def reply (sources : Sources) : Option Request → Reply
  | none => .unusable
  | some request =>
    match request.output sources with
    | .ok output => .success output
    | .error error => .failure (error.message ++ "\n")

end PullQuery.Command
