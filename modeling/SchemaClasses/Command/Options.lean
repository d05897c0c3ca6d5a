import SchemaClasses.Command.Shown

/-!
Options on a command line. A long option may carry its value after an equals sign, a
short one right after its letter, and letters of options without a value may be run
together. A value may look like an option.
-/

namespace SchemaClasses.Command

structure OptionSpec (Key : Type) where
  key : Key
  long : String
  short : Option Char := none
  takesValue : Bool := false

/-- An option and its value, if it takes one. -/
structure Given (Key : Type) where
  key : Key
  value : String := ""
  deriving Repr

inductive OptionFault where
  | unknown (option : String)
  | missingValue (option : String)
  | unwantedValue (option : String)
  deriving DecidableEq, Repr

def OptionFault.message : OptionFault → String
  | .unknown option => "No such option " ++ shown option ++ "."
  | .missingValue option => "Option " ++ shown option ++ " requires an argument."
  | .unwantedValue option => "Option " ++ shown option ++ " does not take a value."

section

/-! One argument that starts with a dash. -/

/-- The options given by one argument. The last of them may still need a value, which
is then the next argument. -/
structure Reading (Key : Type) where
  given : List (Given Key) := []
  awaits : Option (Key × String) := none

variable {Key : Type}

def findLong (specs : List (OptionSpec Key)) (name : String) : Option (OptionSpec Key) :=
  specs.find? (·.long = name)

def findShort (specs : List (OptionSpec Key)) (letter : Char) : Option (OptionSpec Key) :=
  specs.find? (·.short = some letter)

/-- The part before the first equals sign, and what follows it. -/
def splitAtEquals (argument : List Char) : List Char × Option (List Char) :=
  match argument.dropWhile (· ≠ '=') with
  | [] => (argument, none)
  | _ :: value => (argument.takeWhile (· ≠ '='), some value)

def readLong (spec : OptionSpec Key) (name : String) (value : Option (List Char)) :
    Except OptionFault (Reading Key) :=
  match spec.takesValue, value with
  | true, some value => .ok { given := [⟨spec.key, String.ofList value⟩] }
  | true, none => .ok { awaits := some (spec.key, name) }
  | false, some _ => .error (.unwantedValue name)
  | false, none => .ok { given := [{ key := spec.key }] }

def readShort (specs : List (OptionSpec Key)) : List Char → Except OptionFault (Reading Key)
  | [] => .ok {}
  | letter :: rest =>
      let name := String.ofList ['-', letter]
      match findShort specs letter with
      | none => .error (.unknown name)
      | some spec =>
          if !spec.takesValue then do
            let reading ← readShort specs rest
            return { reading with given := { key := spec.key } :: reading.given }
          else if rest.isEmpty then .ok { awaits := some (spec.key, name) }
          else .ok { given := [⟨spec.key, String.ofList rest⟩] }

def readOption (specs : List (OptionSpec Key)) (argument : String) :
    Except OptionFault (Reading Key) :=
  let (name, value) := splitAtEquals argument.toList
  let name := String.ofList name
  match findLong specs name with
  | some spec => readLong spec name value
  | none =>
      if ['-', '-'].isPrefixOf argument.toList then .error (.unknown name)
      else readShort specs (argument.toList.drop 1)

end

section

/-! Whole command lines. Two dashes end the options. -/

variable {Key : Type}

structure Arguments (Key : Type) where
  given : List (Given Key) := []
  others : List String := []

def isOption (argument : String) : Bool :=
  match argument.toList with
  | '-' :: _ :: _ => true
  | _ => false

def Arguments.prepend (arguments : Arguments Key) (given : List (Given Key)) : Arguments Key :=
  { arguments with given := given ++ arguments.given }

/-- `interspersed` if options may follow other arguments. -/
def readArguments (specs : List (OptionSpec Key)) (interspersed : Bool) :
    List String → Except OptionFault (Arguments Key)
  | [] => .ok {}
  | argument :: rest =>
      if argument = "--" then .ok { others := rest }
      else if isOption argument then
        match readOption specs argument with
        | .error fault => .error fault
        | .ok ⟨given, none⟩ => do
            let arguments ← readArguments specs interspersed rest
            return arguments.prepend given
        | .ok ⟨given, some (key, name)⟩ =>
            match rest with
            | [] => .error (.missingValue name)
            | value :: rest => do
                let arguments ← readArguments specs interspersed rest
                return arguments.prepend (given ++ [⟨key, value⟩])
      else if interspersed then do
        let arguments ← readArguments specs interspersed rest
        return { arguments with others := argument :: arguments.others }
      else .ok { others := argument :: rest }

end

end SchemaClasses.Command
