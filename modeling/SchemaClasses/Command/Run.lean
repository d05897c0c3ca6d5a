import SchemaClasses.Command.Generate

/-!
The command line as a whole: the program's own options, then the name of a command and
its arguments.
-/

namespace SchemaClasses.Command

section

/-! Misuse is reported with a hint at how to use the program, or without one where an
option lacks its value or has one too many. -/

def programUsage : String := "Usage: main [OPTIONS] COMMAND [ARGS]...\nTry 'main --help' for help.\n"

def generateUsage : String := "Usage: main generate [OPTIONS]\nTry 'main generate --help' for help.\n"

def misuse (place : Place) (usage message : String) : Outcome :=
  { exitCode := 2, stderr := usage ++ "\nError: " ++ message ++ "\n", tree := place.tree }

def optionMisuse (place : Place) (usage : String) (fault : OptionFault) : Outcome :=
  match fault with
  | .unknown _ => misuse place usage fault.message
  | _ => { exitCode := 2, stderr := "Error: " ++ fault.message ++ "\n", tree := place.tree }

def told (place : Place) (text : String) : Outcome :=
  { exitCode := 0, stdout := text, tree := place.tree }

end

def version : String := "main, version 0.1.0\n"

def runGenerateArguments (place : Place) (arguments : List String) : Outcome :=
  match readArguments optionSpecs true arguments with
  | .error fault => optionMisuse place generateUsage fault
  | .ok parsed =>
      if isGiven parsed.given .help then told place generateUsage
      else match optionsOf place parsed with
        | .error fault => misuse place generateUsage fault.message
        | .ok options => runGenerate place options

inductive ProgramKey where
  | version | help
  deriving DecidableEq, Repr

def programSpecs : List (OptionSpec ProgramKey) :=
  [{ key := .version, long := "--version" }, { key := .help, long := "--help" }]

def runCommand (place : Place) : List String → Outcome
  | [] => misuse place programUsage "Missing command."
  | command :: arguments =>
      if command = "generate" then runGenerateArguments place arguments
      else misuse place programUsage ("No such command " ++ shown command ++ ".")

def run (place : Place) (arguments : List String) : Outcome :=
  match readArguments programSpecs false arguments with
  | .error fault => optionMisuse place programUsage fault
  | .ok parsed =>
      match parsed.given with
      | [] => runCommand place parsed.others
      | first :: _ =>
          match first.key with
          | .version => told place version
          | .help => told place programUsage

end SchemaClasses.Command
