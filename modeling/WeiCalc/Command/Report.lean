import WeiCalc.Builtin
import WeiCalc.Command.Invocation
import WeiCalc.Session
import WeiCalc.Settings.File

/-!
# What a command answers

The settings file is read first, then the options are checked, and then the lines are evaluated:
the expressions among the arguments, or the lines of a file, or else those of the standard input.
A command that is refused ends with status 2, one with a line that failed with status 1.
-/

namespace WeiCalc

/-- Why a file cannot be read. -/
inductive FileProblem where
  | missing
  | directory
  | insideFile
  | forbidden
  | longName
  deriving DecidableEq, Repr

namespace FileProblem

/-- A problem in words, for the file at `path`. -/
def message (path : String) (p : FileProblem) : String :=
  let reason :=
    match p with
    | missing => "[Errno 2] No such file or directory"
    | directory => "[Errno 21] Is a directory"
    | insideFile => "[Errno 20] Not a directory"
    | forbidden => "[Errno 13] Permission denied"
    | longName => "[Errno 36] File name too long"
  reason ++ ": " ++ Text.quoted path

end FileProblem

/-- What a command meets when it runs. -/
structure Surroundings where
  hash : Hash
  /-- The present time in seconds since 1970. -/
  clock : Rat
  /-- The text of the file at a path. -/
  read : String → Except FileProblem String
  /-- The standard input. -/
  input : String
  /-- Does a person type the standard input? -/
  typed : Bool

/-- What a command answers: its status, its output and what it writes beside that. -/
structure Report where
  status : Nat
  output : String
  messages : String
  deriving DecidableEq, Repr

/-- The lines that a command evaluates. -/
inductive LineSource where
  | given (lines : List String)
  | typed (lines : List String)
  deriving DecidableEq, Repr

namespace Command

/-- The name of the command. -/
def name : String := "evmcalc"

/-- How the command is used. -/
def usage : String :=
  "usage: " ++ name ++ " [-h] [-f PATH] [--config PATH] [--max-depth N] [--precision N]\n" ++
  "               [--full-words] [--list-functions] [-v]\n" ++
  "               [EXPR ...]\n"

/-- What the command tells about itself. -/
def help : String :=
  usage ++
  "\nExpression calculator for Ethereum development\n" ++
  "\npositional arguments:\n" ++
  "  EXPR                  Expression to evaluate (one line each)\n" ++
  "\noptions:\n" ++
  "  -h, --help            show this help message and exit\n" ++
  "  -f PATH, --file PATH  Read expressions from a file, one per line ('-' for\n" ++
  "                        stdin)\n" ++
  "  --config PATH         JSON config file\n" ++
  "  --max-depth N         Maximum expression nesting depth\n" ++
  "  --precision N         Fraction digits for get_price_from_tick\n" ++
  "  --full-words          Show integer results as full 32-byte EVM words\n" ++
  "  --list-functions      List the built-in functions and exit\n" ++
  "  -v, --verbose         Also print informational diagnostics\n"

/-- The report on a command that is refused. -/
def refusal (p : CommandProblem) : Report :=
  ⟨2, "", usage ++ name ++ ": error: " ++ p.message ++ "\n"⟩

/-- Lines of text, without the characters that end them. -/
def linesOf (text : String) : List String :=
  (Text.lines text.toList).map String.ofList

/-- Lines as they are typed: only a line feed ends one. -/
def typedLines (text : String) : List String :=
  let pieces := Text.split '\n' text.toList
  let pieces := if pieces.getLast? = some [] then pieces.dropLast else pieces
  pieces.map String.ofList

end Command

namespace Invocation

/-- The settings before the options are looked at. An empty path stands for no file. -/
def fileSettings (i : Invocation) (w : Surroundings) : Except CommandProblem Settings := do
  let standard := Settings.standard w.clock
  match i.config with
  | none => return standard
  | some path =>
    if path.isEmpty then return standard
    match w.read path with
    | .error p => throw (.settings (p.message path))
    | .ok text =>
      let text := String.ofList (Text.unifyBreaks text.toList)
      match Overrides.ofText text with
      | .ok o => return standard.override o
      | .error e => throw (.settings (e.message path text))

/-- A limit that an option gives. -/
def limit (o : CommandOption) : Option Int → Except CommandProblem (Option Limit)
  | none => .ok none
  | some (.ofNat n) => .ok (some (.count n))
  | some (.negSucc _) => .error (.negative o)

/-- The settings that a command asks for. -/
def settings (i : Invocation) (w : Surroundings) : Except CommandProblem Settings := do
  let base ← i.fileSettings w
  let maxDepth ← limit .maxDepth i.maxDepth
  let precision ← limit .precision i.precision
  return base.override ⟨maxDepth, precision, none, if i.fullWords then some true else none⟩

/-- The paths of the files that a command may read. -/
def paths (i : Invocation) : List String :=
  i.config.toList ++ i.file.toList

/-- Does a command evaluate lines of the standard input? -/
def readsInput (i : Invocation) : Bool :=
  !i.help && !i.listFunctions && i.expressions.isEmpty &&
    i.file.all fun path => path.isEmpty || path = "-"

/-- The lines that a command evaluates. An empty path stands for no file, a hyphen for the input. -/
def source (i : Invocation) (w : Surroundings) : Except CommandProblem LineSource :=
  if !i.expressions.isEmpty then .ok (.given i.expressions)
  else
    match i.file.filter (!·.isEmpty) with
    | none =>
      .ok <|
        if w.typed then .typed (Command.typedLines w.input)
        else .given (Command.linesOf w.input)
    | some path =>
      if path = "-" then .ok (.given (Command.linesOf w.input))
      else
        match w.read path with
        | .ok text => .ok (.given (Command.linesOf text))
        | .error p => .error (.unreadable path (p.message path))

/-- The environment and the lines of a command. -/
def task (i : Invocation) (w : Surroundings) :
    Except CommandProblem (Environment × LineSource) := do
  let settings ← i.settings w
  return (⟨settings, w.hash⟩, ← i.source w)

end Invocation

namespace Environment

/-- Evaluates lines from where they come. -/
def runSource (env : Environment) (verbose : Bool) : LineSource → Except Fault Transcript
  | .given lines => env.run verbose lines
  | .typed lines => env.converse verbose lines

end Environment

/-- The report on evaluated lines. -/
def Transcript.conclude (t : Transcript) : Report :=
  ⟨if t.failures = 0 then 0 else 1, t.output, t.messages⟩

/-- What a command asks for, answered. -/
def Invocation.answer (i : Invocation) (w : Surroundings) : Except Fault Report :=
  if i.help then .ok ⟨0, Command.help, ""⟩
  else if i.listFunctions then .ok ⟨0, String.join (Builtin.names.map (· ++ "\n")), ""⟩
  else
    match i.task w with
    | .ok (env, source) => return (← env.runSource i.verbose source).conclude
    | .error p => .ok (Command.refusal p)

/-- What the command answers to its arguments. -/
def Command.run (w : Surroundings) (args : List String) : Except Fault Report :=
  match Invocation.ofArguments args with
  | .ok i => i.answer w
  | .error p => .ok (refusal p)

end WeiCalc
