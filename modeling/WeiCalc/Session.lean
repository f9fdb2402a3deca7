import WeiCalc.Display
import WeiCalc.Expr.Evaluation
import WeiCalc.Expr.Parser
import WeiCalc.Text.Blank

/-!
# Sessions

A session evaluates lines one after the other; nothing carries over between them. What a line
evaluates to goes to the output, errors and diagnostics go beside it.
-/

namespace WeiCalc

namespace Environment

/-- The value of a line. -/
def value (env : Environment) (line : String) : Eval Value := do
  let e ← Expr.ofLine env.settings.maxDepth line
  (Context.start env).value e

/-- What is shown for a line. -/
def evaluate (env : Environment) (line : String) : Eval String :=
  return (← env.value line).display env.settings.fullWords

end Environment

/-- What a session has written so far, and how many lines have failed. -/
structure Transcript where
  output : String
  messages : String
  failures : Nat
  deriving DecidableEq, Repr

namespace Transcript

/-- The start of a session. -/
def start : Transcript := ⟨"", "", 0⟩

/-- Adds text to the output. -/
def print (t : Transcript) (text : String) : Transcript :=
  { t with output := t.output ++ text }

/-- Adds text beside the output. -/
def report (t : Transcript) (text : String) : Transcript :=
  { t with messages := t.messages ++ text }

/-- Counts a line that failed. -/
def countFailure (t : Transcript) : Transcript :=
  { t with failures := t.failures + 1 }

/-- Evaluates one more line; blank lines are passed over. Notes are shown if `verbose` holds. -/
def evaluate (env : Environment) (verbose : Bool) (t : Transcript) (line : String) :
    Except Fault Transcript :=
  let line := Text.trimmed line
  if line.isEmpty then .ok t
  else
    match env.evaluate line #[] with
    | .ok text ds => .ok ((t.print (text ++ "\n")).report (ds.summary verbose))
    | .error (.error e) ds =>
      .ok ((t.countFailure.report (e.message ++ "\n")).report (ds.summary verbose))
    | .error (.fault f) _ => .error f

end Transcript

/-- Evaluates lines. -/
def Environment.run (env : Environment) (verbose : Bool) (lines : List String) :
    Except Fault Transcript :=
  lines.foldlM (Transcript.evaluate env verbose) .start

/-- What stands in front of every line that is typed. -/
def Environment.prompt : String := "> "

/-- Evaluates lines as they are typed: a prompt comes in front of each and one more at the end. -/
def Environment.converse (env : Environment) (verbose : Bool) (lines : List String) :
    Except Fault Transcript := do
  let t ← lines.foldlM (fun t line => (t.print prompt).evaluate env verbose line) Transcript.start
  return t.print (prompt ++ "\n")

end WeiCalc
