import WeiCalc.Command.Option

/-!
# What a command asks for

Expressions stand together in one run among the arguments; a second run is not understood. Options
are taken in order, so that the last of several counts, and a value may stand in the argument of
its option or in the next one.
-/

namespace WeiCalc

/-- What a command asks for. -/
structure Invocation where
  expressions : List String
  file : Option String
  config : Option String
  maxDepth : Option Int
  precision : Option Int
  fullWords : Bool
  listFunctions : Bool
  verbose : Bool
  help : Bool
  deriving DecidableEq, Repr

namespace Invocation

/-- A command without arguments. -/
def plain : Invocation :=
  ⟨[], none, none, none, none, false, false, false, false⟩

/-- The integer that is the value of an option. -/
def integer (o : CommandOption) (value : String) : Except CommandProblem Int :=
  match Text.integer? value with
  | some i => .ok i
  | none => .error (.notInteger o value)

/-- Takes an option and its value. Nothing counts behind a call for help. -/
def take (i : Invocation) : CommandOption × String → Except CommandProblem Invocation
  | (o, value) =>
    if i.help then .ok i
    else
      match o with
      | .help => .ok { i with help := true }
      | .file => .ok { i with file := some value }
      | .config => .ok { i with config := some value }
      | .maxDepth => return { i with maxDepth := some (← integer o value) }
      | .precision => return { i with precision := some (← integer o value) }
      | .fullWords => .ok { i with fullWords := true }
      | .listFunctions => .ok { i with listFunctions := true }
      | .verbose => .ok { i with verbose := true }

end Invocation

/-- What an argument with options comes to. -/
structure OptionCluster where
  /-- The options that are complete, with their values; the value of a flag is empty. -/
  settled : List (CommandOption × String)
  /-- The option whose value is the next argument. -/
  pending : Option CommandOption

namespace OptionCluster

/-- An option with nothing behind it in its argument. -/
def alone (settled : List (CommandOption × String)) (o : CommandOption) : OptionCluster :=
  if o.takesValue then ⟨settled, some o⟩ else ⟨settled ++ [(o, "")], none⟩

/-- An option of one letter with more behind it: its value, or further options of one letter. -/
def ofLetters (settled : List (CommandOption × String)) (o : CommandOption) :
    List Char → Except CommandProblem OptionCluster
  | [] => if o.takesValue then .ok ⟨settled ++ [(o, "")], none⟩ else .error (.uselessValue o "")
  | c :: cs =>
    let text := String.ofList (c :: cs)
    if o.takesValue then .ok ⟨settled ++ [(o, text)], none⟩
    else
      match CommandOption.ofLetter? c, cs with
      | none, _ => .error (.uselessValue o text)
      | some next, [] => .ok (alone (settled ++ [(o, "")]) next)
      | some next, more => ofLetters (settled ++ [(o, "")]) next more

/-- The options of an argument. -/
def ofSpelled (s : SpelledOption) : Except CommandProblem OptionCluster :=
  match s.attached with
  | none => .ok (alone [] s.option)
  | some value =>
    if !s.long then ofLetters [] s.option value
    else if s.option.takesValue then .ok ⟨[(s.option, String.ofList value)], none⟩
    else .error (.uselessValue s.option (String.ofList value))

end OptionCluster

/-- How far the run of the expressions has been read. -/
inductive ExpressionRun where
  | before
  | inside
  | behind
  deriving DecidableEq, Repr

/-- The arguments read so far. -/
structure ArgumentReading where
  invocation : Invocation
  run : ExpressionRun
  /-- The arguments that are not understood, in order. -/
  unknown : List String
  /-- An option that waits for its value, with the options in front of it. -/
  awaiting : Option (List (CommandOption × String) × CommandOption)

namespace ArgumentReading

/-- Before the first argument. -/
def start : ArgumentReading := ⟨.plain, .before, [], none⟩

/-- An argument that is not understood. -/
def refuse (r : ArgumentReading) (text : String) : ArgumentReading :=
  { r with unknown := r.unknown ++ [text] }

/-- A plain argument: an expression, unless their run has ended. -/
def plain (r : ArgumentReading) (text : String) : ArgumentReading :=
  if r.run = .behind then r.refuse text
  else
    { r with
      invocation := { r.invocation with expressions := r.invocation.expressions ++ [text] }
      run := .inside }

/-- Two hyphens: they belong to the run of expressions, but are none. -/
def separator (r : ArgumentReading) : ArgumentReading :=
  if r.run = .behind then r.refuse "--" else { r with run := .inside }

/-- An option ends the run of expressions. -/
def endRun (r : ArgumentReading) : ArgumentReading :=
  { r with run := if r.run = .before then .before else .behind }

/-- Takes options with their values. -/
def take (r : ArgumentReading) (os : List (CommandOption × String)) :
    Except CommandProblem ArgumentReading :=
  return { r with invocation := ← os.foldlM Invocation.take r.invocation }

/-- Takes what an argument with options comes to. -/
def takeCluster (r : ArgumentReading) (c : OptionCluster) :
    Except CommandProblem ArgumentReading :=
  match c.pending with
  | none => r.endRun.take c.settled
  | some o => .ok { r.endRun with awaiting := some (c.settled, o) }

/-- Reads one more argument. Nothing counts behind a call for help. -/
def step (r : ArgumentReading) (piece : CommandPiece) : Except CommandProblem ArgumentReading :=
  if r.invocation.help then .ok r
  else
    match r.awaiting, piece with
    | some (settled, o), .plain value =>
      { r with awaiting := none }.take (settled ++ [(o, value)])
    | some (_, o), _ => .error (.noValue o)
    | none, .plain text => .ok (r.plain text)
    | none, .separator => .ok r.separator
    | none, .unknown text => .ok (r.endRun.refuse text)
    | none, .option spelled => do r.takeCluster (← OptionCluster.ofSpelled spelled)

/-- What the arguments ask for, once all have been read. -/
def finish (r : ArgumentReading) : Except CommandProblem Invocation :=
  if r.invocation.help then .ok r.invocation
  else
    match r.awaiting, r.unknown with
    | some (_, o), _ => .error (.noValue o)
    | none, [] => .ok r.invocation
    | none, unknown => .error (.unrecognized unknown)

end ArgumentReading

/-- What arguments ask for. -/
def Invocation.ofArguments (args : List String) : Except CommandProblem Invocation := do
  (← (← CommandPiece.ofArguments args).foldlM ArgumentReading.step .start).finish

end WeiCalc
