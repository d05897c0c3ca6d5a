import SchemaClasses.Command.Options
import SchemaClasses.Files.Load
import SchemaClasses.Generator

/-!
The `generate` command: from schema files to a module file. Nothing is written unless
the whole generation succeeds.
-/

namespace SchemaClasses.Command

open Files Build Output

section

/-! The place in which a command runs, and what comes out of it. -/

structure Place where
  tree : FileTree
  /-- The directory from which relative paths start. -/
  start : Path := []
  /-- How the top of the tree is written. -/
  top : String := ""

def Place.shownPath (place : Place) (path : Path) : String :=
  if path.isEmpty && place.top.isEmpty then "/"
  else place.top ++ String.join (path.map fun component => "/" ++ component)

/-- A failure that the command does not report itself. -/
inductive Escape where
  | write (fault : FileTree.WriteFault)
  | nullCharacter
  deriving DecidableEq, Repr

structure Outcome where
  exitCode : Nat
  stdout : String := ""
  stderr : String := ""
  escaped : Option Escape := none
  tree : FileTree

end

section

/-! Options. -/

inductive Key where
  | schema | output | noSchemaWiring | noDescriptions | scalarArgsOnly | header | excludePrefix
  | templateDir | verbose | help
  deriving DecidableEq, Repr

def optionSpecs : List (OptionSpec Key) :=
  [{ key := .schema, long := "--schema", short := some 's', takesValue := true },
   { key := .output, long := "--output", short := some 'o', takesValue := true },
   { key := .noSchemaWiring, long := "--no-schema-wiring" },
   { key := .noDescriptions, long := "--no-descriptions" },
   { key := .scalarArgsOnly, long := "--scalar-args-only" },
   { key := .header, long := "--header", takesValue := true },
   { key := .excludePrefix, long := "--exclude-prefix", takesValue := true },
   { key := .templateDir, long := "--template-dir", takesValue := true },
   { key := .verbose, long := "--verbose", short := some 'v' },
   { key := .help, long := "--help" }]

def isGiven (given : List (Given Key)) (key : Key) : Bool :=
  given.any (·.key = key)

/-- The last of repeated options counts. -/
def valueOf? (given : List (Given Key)) (key : Key) : Option String :=
  (given.reverse.find? (·.key = key)).map Given.value

structure Options where
  schema : String
  output : String := "gen.py"
  wiring : Bool := true
  descriptions : Bool := true
  scalarArgumentsOnly : Bool := false
  header : String := ""
  excludedStart : String := ""
  templateDir : Option String := none
  verbose : Bool := false
  deriving DecidableEq, Repr

inductive UsageFault where
  | missingSchema
  | noSuchPath (path : String)
  | noSuchDirectory (path : String)
  | notADirectory (path : String)
  | extraArguments (arguments : List String)
  deriving DecidableEq, Repr

def UsageFault.message : UsageFault → String
  | .missingSchema => "Missing option '--schema' / '-s'."
  | .noSuchPath path =>
      "Invalid value for '--schema' / '-s': Path " ++ shown path ++ " does not exist."
  | .noSuchDirectory path =>
      "Invalid value for '--template-dir': Directory " ++ shown path ++ " does not exist."
  | .notADirectory path =>
      "Invalid value for '--template-dir': Directory " ++ shown path ++ " is a file."
  | .extraArguments arguments =>
      "Got unexpected extra argument" ++ (if arguments.length = 1 then "" else "s") ++ " (" ++
        " ".intercalate arguments ++ ")"

/-- What stands at a path that is given on the command line; the empty path is nowhere. -/
def Place.entry? (place : Place) (text : String) : Option Entry := do
  if text.isEmpty then none
  let path ← place.tree.locate place.start text
  place.tree.entry? path

def checkSchema (place : Place) (path : String) : Except UsageFault Unit :=
  match place.entry? path with
  | none => .error (.noSuchPath path)
  | some _ => .ok ()

def checkTemplateDir (place : Place) (path : String) : Except UsageFault Unit :=
  match place.entry? path with
  | none => .error (.noSuchDirectory path)
  | some (.file _) => .error (.notADirectory path)
  | some .folder => .ok ()

def checkValue (place : Place) (given : List (Given Key)) (key : Key) : Except UsageFault Unit :=
  match key, valueOf? given key with
  | .schema, some path => checkSchema place path
  | .templateDir, some path => checkTemplateDir place path
  | _, _ => .ok ()

def checkValues (place : Place) (given : List (Given Key)) : List (Given Key) → Except UsageFault Unit
  | [] => .ok ()
  | option :: rest => do
      checkValue place given option.key
      checkValues place given rest

/-- Values are checked in the order in which their options first appear. Missing options
come next, and arguments that belong to no option last. -/
def optionsOf (place : Place) (arguments : Arguments Key) : Except UsageFault Options := do
  let given := arguments.given
  checkValues place given given
  match valueOf? given .schema with
  | none => throw .missingSchema
  | some schema =>
      if !arguments.others.isEmpty then throw (.extraArguments arguments.others)
      return {
        schema
        output := (valueOf? given .output).getD "gen.py"
        wiring := !isGiven given .noSchemaWiring
        descriptions := !isGiven given .noDescriptions
        scalarArgumentsOnly := isGiven given .scalarArgsOnly
        header := (valueOf? given .header).getD ""
        excludedStart := (valueOf? given .excludePrefix).getD ""
        templateDir := valueOf? given .templateDir
        verbose := isGiven given .verbose }

end

section

/-! The run itself. Lines go to standard output as the run gets on. -/

def lines (texts : List String) : String :=
  String.join (texts.map (· ++ "\n"))

def hooksOf (options : Options) : Hooks where
  before :=
    if options.excludedStart.isEmpty then []
    else [Hook.ofFilter { excludedStart := some options.excludedStart }]
  after := if options.header.isEmpty then [] else [Hook.ofHeader options.header]

/-- The name of the file at a path. -/
def nameOf (path : Path) : String :=
  path.getLast?.getD ""

def generatorOf (place : Place) (options : Options) : Generator where
  settings := {
    wiring := options.wiring
    descriptions := options.descriptions
    scalarArgumentsOnly := options.scalarArgumentsOnly
    outputFile := nameOf (Path.resolve place.start options.output) }
  template := options.templateDir.bind (place.tree.template? place.start)
  hooks := hooksOf options

def verboseLines (options : Options) (texts : List String) : List String :=
  if options.verbose then texts else []

def pathLines (place : Place) (options : Options) : List String :=
  verboseLines options
    ["Schema: " ++ place.shownPath (Path.resolve place.start options.schema),
     "Output: " ++ place.shownPath (Path.resolve place.start options.output)]

def importList (document : ClassModule) : String :=
  if document.classes.isEmpty then "(none)" else ", ".intercalate document.imports

def moduleLines (options : Options) (document : ClassModule) : List String :=
  verboseLines options
    ["  Classes: " ++ toString document.classes.length, "  Imports: " ++ importList document]

def failed (place : Place) (stdout message : String) : Outcome :=
  { exitCode := 1, stdout, stderr := "Error: " ++ message ++ "\n", tree := place.tree }

def escape (place : Place) (stdout : String) (escaped : Escape) : Outcome :=
  { exitCode := 1, stdout, escaped := some escaped, tree := place.tree }

def writeOutput (place : Place) (options : Options) (stdout content : String) : Outcome :=
  let path := Path.resolve place.start options.output
  match place.tree.write path content with
  | .error fault => escape place stdout (.write fault)
  | .ok tree =>
      { exitCode := 0
        stdout := stdout ++ lines ["Wrote file at " ++ place.shownPath path]
        tree }

def generateFrom (place : Place) (options : Options) (stdout : String)
    (document : Schema.Document) : Outcome :=
  let output := Path.resolve place.start options.output
  match (generatorOf place options).generateDocument document (some (nameOf output)) with
  | .error .nullCharacter => escape place stdout .nullCharacter
  | .error failure => failed place stdout failure.message
  | .ok generated =>
      writeOutput place options (stdout ++ lines (moduleLines options generated.document))
        generated.content

def runGenerate (place : Place) (options : Options) : Outcome :=
  let begun := lines (pathLines place options ++ ["Parsing schema..."])
  let loading := place.tree.load place.start options.schema
  match loading.outcome with
  | .error loadFault => failed place (begun ++ loading.printed) loadFault.report
  | .ok document =>
      let loaded := verboseLines options ["  Definitions: " ++ toString document.length]
      generateFrom place options (begun ++ lines (loaded ++ ["Generating code..."])) document

end

end SchemaClasses.Command
