import WeiCalc.Text.Integer
import WeiCalc.Text.Quoted

/-!
# Options of the command

The options, how they are written, and why a command can be refused. Options may be shortened as
long as only one starts that way; those of one letter may be written in one argument.
-/

namespace WeiCalc

/-- The options of the command. -/
inductive CommandOption where
  | help
  | file
  | config
  | maxDepth
  | precision
  | fullWords
  | listFunctions
  | verbose
  deriving DecidableEq, Repr

namespace CommandOption

/-- Every way to write an option. -/
def spellings : List (String × CommandOption) :=
  [
    ("-h", help), ("--help", help), ("-f", file), ("--file", file), ("--config", config),
    ("--max-depth", maxDepth), ("--precision", precision), ("--full-words", fullWords),
    ("--list-functions", listFunctions), ("-v", verbose), ("--verbose", verbose)]

/-- How an error message calls an option: all ways to write it. -/
def label (o : CommandOption) : String :=
  String.intercalate "/" ((spellings.filter fun s => s.2 = o).map Prod.fst)

/-- Does a value follow the option? -/
def takesValue : CommandOption → Bool
  | file => true
  | config => true
  | maxDepth => true
  | precision => true
  | _ => false

/-- The option of one letter. -/
def ofLetter? (c : Char) : Option CommandOption :=
  spellings.lookup (String.ofList ['-', c])

end CommandOption

/-- Why a command is refused. -/
inductive CommandProblem where
  | ambiguous (given : String) (candidates : List String)
  | uselessValue (o : CommandOption) (value : String)
  | noValue (o : CommandOption)
  | notInteger (o : CommandOption) (value : String)
  | unrecognized (arguments : List String)
  | negative (o : CommandOption)
  | settings (reason : String)
  | unreadable (path reason : String)
  deriving DecidableEq, Repr

namespace CommandProblem

/-- A problem in words. -/
def message : CommandProblem → String
  | ambiguous given candidates =>
    s!"ambiguous option: {given} could match " ++ String.intercalate ", " candidates
  | uselessValue o value => s!"argument {o.label}: ignored explicit argument {Text.quoted value}"
  | noValue o => s!"argument {o.label}: expected one argument"
  | notInteger o value => s!"argument {o.label}: invalid int value: {Text.quoted value}"
  | unrecognized arguments => "unrecognized arguments: " ++ String.intercalate " " arguments
  | negative o => s!"{o.label} must be non-negative"
  | settings reason => "cannot load config: " ++ reason
  | unreadable path reason => s!"cannot read {path}: {reason}"

end CommandProblem

/-- An option as one argument writes it. -/
structure SpelledOption where
  option : CommandOption
  /-- Is it written with two hyphens? -/
  long : Bool
  /-- What stands behind it in the same argument. -/
  attached : Option (List Char)

/-- What an argument of the command is. -/
inductive CommandPiece where
  | plain (text : String)
  /-- Two hyphens; all that follows them is plain. -/
  | separator
  | option (spelled : SpelledOption)
  | unknown (text : String)

namespace CommandPiece

/-- Is a text a negative number? A line feed may follow it. -/
def isNegativeNumber (cs : List Char) : Bool :=
  let isDigit c := (Text.digitValue? c).isSome
  let body := (if cs.getLast? = some '\n' then cs.dropLast else cs).drop 1
  match body.dropWhile isDigit with
  | [] => !body.isEmpty
  | '.' :: fraction => !fraction.isEmpty && fraction.all isDigit
  | _ => false

/-- The options that an argument which is no full spelling may stand for, with their spellings. -/
def candidates (cs : List Char) : List (String × SpelledOption) :=
  if ['-', '-'].isPrefixOf cs then
    let front := cs.takeWhile (· != '=')
    let attached :=
      match cs.dropWhile (· != '=') with
      | [] => none
      | _ :: value => some value
    (CommandOption.spellings.filter fun s => front.isPrefixOf s.1.toList).map fun s =>
      (s.1, ⟨s.2, true, attached⟩)
  else
    (CommandOption.spellings.filter fun s => s.1.toList = cs.take 2).map fun s =>
      (s.1, ⟨s.2, false, some (cs.drop 2)⟩)

/-- The option that an argument writes in full, with a value behind an equals sign or without. -/
def inFull? (cs : List Char) : Option SpelledOption :=
  let long := ['-', '-'].isPrefixOf cs
  let front := String.ofList (cs.takeWhile (· != '='))
  match CommandOption.spellings.lookup front, cs.dropWhile (· != '=') with
  | some o, [] => some ⟨o, long, none⟩
  | some o, _ :: value => some ⟨o, long, some value⟩
  | none, _ => none

/--
What an argument is. One that starts with a hyphen is an option unless it is a hyphen alone, a
negative number or holds a space.
-/
def ofArgument (arg : String) : Except CommandProblem CommandPiece :=
  let cs := arg.toList
  match cs with
  | '-' :: _ :: _ =>
    match inFull? cs, candidates cs with
    | some spelled, _ => .ok (.option spelled)
    | none, [(_, spelled)] => .ok (.option spelled)
    | none, [] =>
      .ok (if isNegativeNumber cs || cs.contains ' ' then .plain arg else .unknown arg)
    | none, several => .error (.ambiguous arg (several.map Prod.fst))
  | _ => .ok (.plain arg)

/-- What the arguments of the command are. -/
def ofArguments : List String → Except CommandProblem (List CommandPiece)
  | [] => .ok []
  | arg :: args =>
    if arg = "--" then .ok (.separator :: args.map .plain)
    else do return (← ofArgument arg) :: (← ofArguments args)

end CommandPiece

end WeiCalc
