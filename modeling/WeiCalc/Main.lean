import Std.Time.DateTime.Timestamp
import WeiCalc.Command.Report

/-!
# The command

Reads what a command needs from the world and writes what it answers. When a person types the
lines, each of them is answered before the next one is read.
-/

namespace WeiCalc

namespace Command

/-- The text of a file. -/
def readFile (path : String) : IO (Except FileProblem String) := do
  try
    return .ok (← IO.FS.readFile path)
  catch e =>
    match e with
    | .noFileOrDirectory .. => return .error .missing
    | .inappropriateType _ 20 _ => return .error .insideFile
    | .inappropriateType .. => return .error .directory
    | .permissionDenied .. => return .error .forbidden
    | .invalidArgument _ 36 _ => return .error .longName
    | e => throw e

/-- What the world holds for a command. Typed lines are not read ahead. -/
def surroundings (i : Invocation) : IO Surroundings := do
  let stdin ← IO.getStdin
  let typed ← stdin.isTty
  let texts ← i.paths.mapM fun path => return (path, ← readFile path)
  let awaited := i.readsInput && (i.file = some "-" || !typed)
  let input ← if awaited then IO.FS.Stream.readToEnd stdin else pure ""
  let now ← Std.Time.Timestamp.now
  let clock : Rat := now.toNanosecondsSinceUnixEpoch.toInt / (1000000000 : Nat)
  let read path := (texts.lookup path).getD (.error .missing)
  return ⟨Keccak.digest, clock, read, input, typed⟩

/-- Writes what has been written to a transcript. -/
def write (t : Transcript) : IO Unit := do
  IO.print t.output
  (← IO.getStdout).flush
  IO.eprint t.messages

/-- Answers lines as they are typed; the answer is how many of them have failed. -/
partial def converse (env : Environment) (verbose : Bool) (failures : Nat) : IO Nat := do
  write (Transcript.start.print Environment.prompt)
  let line ← (← IO.getStdin).getLine
  if line.isEmpty then
    write (Transcript.start.print "\n")
    return failures
  match Transcript.start.evaluate env verbose line with
  | .ok t =>
    write t
    converse env verbose (failures + t.failures)
  | .error f => throw (IO.userError (reprStr f))

/-- Writes a report and ends with its status. -/
def finish (r : Report) : IO UInt32 := do
  write ⟨r.output, r.messages, 0⟩
  return UInt32.ofNat r.status

/-- Answers a command whose arguments have been understood. -/
def perform (i : Invocation) : IO UInt32 := do
  let w ← surroundings i
  match i.readsInput && i.file != some "-" && w.typed, i.task w with
  | true, .ok (env, _) =>
    let failures ← converse env i.verbose 0
    finish ⟨if failures = 0 then 0 else 1, "", ""⟩
  | _, _ =>
    match i.answer w with
    | .ok r => finish r
    | .error f => throw (IO.userError (reprStr f))

end Command

end WeiCalc

def main (args : List String) : IO UInt32 :=
  match WeiCalc.Invocation.ofArguments args with
  | .ok i => WeiCalc.Command.perform i
  | .error p => WeiCalc.Command.finish (WeiCalc.Command.refusal p)
