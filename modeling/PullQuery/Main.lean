import PullQuery.Command.Program
import Std.Time.DateTime.Timestamp

/-! The command line: reads the arguments, the environment, the clock and the texts that are asked
for, and prints the reply. -/
namespace PullQuery.Main

open PullQuery.Command

def faultOf : IO.Error → FileFault
  | .noFileOrDirectory .. => .missing
  | .inappropriateType _ code _ => if code = 21 then .isDirectory else .notDirectory
  | error => .other (toString error)

def attempt (action : IO String) : IO (Except FileFault String) := do
  try return .ok (← action) catch error => return .error (faultOf error)

/-- The present instant, the start of 1970 if the clock is out of the calendar. -/
def now : IO Time.Instant := do
  let t ← Std.Time.Timestamp.now
  let nanos := t.toNanosecondsSinceUnixEpoch.toInt
  return (Time.Instant.make? (nanos / 1000000000) (nanos % 1000000000).toNat).getD .epoch

partial def readAll (stream : IO.FS.Stream) (before : String) : IO String := do
  let line ← stream.getLine
  if line.isEmpty then return before else readAll stream (before ++ line)

def sourcesOf (request : Option Request) : IO Sources := do
  let paths := (request.map Request.paths).getD []
  let files ← paths.mapM fun (path : String) => do
    let text ← attempt (IO.FS.readFile path)
    return (path, text)
  let standardInput ←
    if (request.map Request.readsStandardInput).getD false then
      attempt (do readAll (← IO.getStdin) "")
    else pure (.ok "")
  let file (path : String) :=
    ((files.find? fun entry => entry.1 == path).map (·.2)).getD (.error .missing)
  return ⟨file, standardInput, ← now⟩

end PullQuery.Main

open PullQuery.Command in
def main (arguments : List String) : IO UInt32 := do
  let request := readRequest? (← IO.getEnv "PRQ_USER") arguments
  match reply (← PullQuery.Main.sourcesOf request) request with
  | .success output =>
    IO.print output
    return 0
  | .failure error =>
    IO.eprint error
    return 1
  | .unusable =>
    IO.eprintln "error: the arguments are not usable"
    return 2
