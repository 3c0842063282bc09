/-! The arguments of the inspection command and where they point it.

A subcommand takes at most one operand. Verbosity flags may stand anywhere;
behind a lone `--` every argument is an operand. A single dash is an operand,
and whatever else starts with a dash is refused. Where the operand is left out
a variable stands in for it, and after that standard input.

Help texts are left out: what asks for one, `-h`, `--help` or the name `help`,
counts as a misuse here.
-/

set_option autoImplicit false

namespace TxEnvelope.Inspect

/-- What is inspected: a JSON record from a file, or canonical bytes in hex. -/
inductive Subcommand where
  | json
  | raw
  deriving DecidableEq, Repr

def Subcommand.ofName? (name : String) : Option Subcommand :=
  if name = "json" then some .json else if name = "raw" then some .raw else none

/-- Whether an argument asks for more logging: `--verbose`, `-v`, `-vv` and so on. -/
def isVerbosity (argument : String) : Bool :=
  argument == "--verbose" ||
    match argument.toList with
    | '-' :: 'v' :: more => more.all (· == 'v')
    | _ => false

def isOption (argument : String) : Bool :=
  match argument.toList with
  | '-' :: _ :: _ => true
  | _ => false

/-- The operand among the arguments behind a subcommand; none if there are too many or an
unknown option. -/
def operand (found : Option String) : List String → Option (Option String)
  | [] => some found
  | argument :: rest =>
    if argument = "--" then
      -- From here on nothing is an option; at most one argument may follow, if none came before.
      match found, rest with
      | found, [] => some found
      | none, [last] => some (some last)
      | _, _ => none
    else if isVerbosity argument then operand found rest
    else if isOption argument then none
    else
      match found with
      | none => operand (some argument) rest
      | some _ => none

def parseArguments : List String → Option (Subcommand × Option String)
  | [] => none
  | argument :: rest =>
    if isVerbosity argument then parseArguments rest
    else
      match Subcommand.ofName? argument with
      | none => none
      | some subcommand => (operand none rest).map (subcommand, ·)

/-- The variables that stand in for a missing operand. -/
structure Environment where
  path : Option String
  hex : Option String

inductive Source where
  | stdin
  | file (path : String)
  | given (text : String)
  deriving DecidableEq, Repr

/-- The subcommand and its source; none where the command is misused. An empty path is no path,
so it is a misuse wherever it comes from; an empty hex text is a text. -/
def plan (arguments : List String) (environment : Environment) : Option (Subcommand × Source) :=
  match parseArguments arguments with
  | none => none
  | some (.json, operand) =>
    match operand <|> environment.path with
    | none => some (.json, .stdin)
    | some path => if path.isEmpty then none else some (.json, .file path)
  | some (.raw, operand) =>
    match operand <|> environment.hex with
    | none => some (.raw, .stdin)
    | some text => some (.raw, .given text)

end TxEnvelope.Inspect
