import SchemaClasses.Proofs.Descriptions
import SchemaClasses.Proofs.SafeWriting
import SchemaClasses.Proofs.UniformRules

/-!
The command on a single schema file. Reading the file unifies its line ends, which neither
makes a text blank nor changes what is read from it, and an empty header or an empty start
of names asks for no more than none. So the command writes what a generator with the chosen
settings and hooks makes of the text itself, and fails where that fails.
-/

namespace SchemaClasses

open Schema Build Output

theorem Files.readText_blank (text : String) :
    Text.isBlankText (readText text) = Text.isBlankText text := by
  rw [Text.isBlankText, readText, String.toList_ofList]
  exact Text.unifyNewlines_all (by decide) (by decide) text.toList

theorem Build.buildModule_outputFile (settings : Settings) (file : String)
    (document : Document) :
    buildModule { settings with outputFile := file } document = buildModule settings document := by
  -- Both sides are the module without empty descriptions.
  have same : settings.Matches { settings with outputFile := file } dropEmpty :=
    ⟨rfl, rfl, rfl, (matches_dropEmpty settings).described⟩
  rw [← buildModule_redescribe same, buildModule_redescribe (matches_dropEmpty _)]

namespace Generator

section Agreement

/-- Both build the same module of a document and make the same text of it. The name of the
file goes into messages only. -/
structure Agrees (first second : Generator) : Prop where
  build : ∀ document, first.build document = second.build document
  template : first.template = second.template
  before : ∀ document, first.hooks.runBefore document = second.hooks.runBefore document
  after : ∀ file other content,
    first.hooks.runAfter file content = second.hooks.runAfter other content

variable {first second : Generator}

theorem toOption_bind {α β : Type} (outcome : Except Failure α) (next : α → Except Failure β) :
    (outcome >>= next).toOption = outcome.toOption.bind fun value => (next value).toOption := by
  cases outcome <;> rfl

theorem toOption_eq_some {ε α : Type} {outcome : Except ε α} {value : α} :
    outcome.toOption = some value ↔ outcome = .ok value := by
  cases outcome <;> simp [Except.toOption]

theorem check_toOption (file other content : String) :
    (check file content).toOption = (check other content).toOption := by
  unfold check
  cases Check.problem? content with
  | none => rfl
  | some problem => cases problem <;> rfl

theorem Agrees.generateDocument (same : first.Agrees second) (document : Document)
    (name other : Option String) :
    (first.generateDocument document name).toOption =
      (second.generateDocument document other).toOption := by
  unfold Generator.generateDocument
  rw [same.before, same.build, toOption_bind, toOption_bind]
  congr 1
  funext classModule
  have text : first.render classModule = second.render classModule := by
    rw [render, render, same.template]
  split
  · rfl
  · dsimp only
    rw [toOption_bind, toOption_bind, text, same.after _ (second.fileName other),
      check_toOption _ (second.fileName other)]

theorem generate_toOption (generator : Generator) (source : String) (name : Option String) :
    (generator.generate source name).toOption =
      if Text.isBlankText source then some ""
      else (Sdl.readDocument source).toOption.bind fun document =>
        (generator.generateDocument document name).toOption.map Generated.content := by
  have read : (readSchema source).toOption = (Sdl.readDocument source).toOption := by
    rw [readSchema]
    cases Sdl.readDocument source <;> rfl
  unfold generate
  split
  · rfl
  · rw [toOption_bind, read]
    congr 1
    funext document
    cases generator.generateDocument document name <;> rfl

theorem Agrees.generate (same : first.Agrees second) (source : String)
    (name other : Option String) :
    (first.generate source name).toOption = (second.generate source other).toOption := by
  simp only [generate_toOption, same.generateDocument _ name other]

end Agreement

end Generator

namespace Command

open Files

section Hooks

/-! Hooks that are left out would have done nothing. -/

theorem apply_empty (document : Document) :
    TypeFilter.apply { excludedStart := some "" } document = document := by
  refine List.filter_eq_self.mpr fun definition _ => ?_
  cases definition <;> rfl

theorem addTo_empty (content : String) : Header.addTo "" content = content := rfl

theorem runBefore_hooksOf (options : Options) (document : Document) :
    (hooksOf options).runBefore document =
      TypeFilter.apply { excludedStart := some options.excludedStart } document := by
  rw [Hooks.runBefore, hooksOf]
  by_cases empty : options.excludedStart.isEmpty = true
  · rw [if_pos empty, String.isEmpty_iff.mp empty, apply_empty]
    rfl
  · rw [if_neg empty]
    rfl

theorem runAfter_hooksOf (options : Options) (file content : String) :
    (hooksOf options).runAfter file content = Header.addTo options.header content := by
  rw [Hooks.runAfter, hooksOf]
  by_cases empty : options.header.isEmpty = true
  · rw [if_pos empty, String.isEmpty_iff.mp empty, addTo_empty]
    rfl
  · rw [if_neg empty]
    rfl

end Hooks

section Choices

/-- An option of the `generate` command other than `--template-dir` and `--help`. -/
inductive Choice where
  | schema (path : String)
  | output (path : String)
  | noSchemaWiring
  | noDescriptions
  | scalarArgsOnly
  | header (text : String)
  | excludePrefix (start : String)
  | verbose
  deriving DecidableEq, Repr

namespace Choice

def spelled : Choice → List String
  | .schema path => ["--schema", path]
  | .output path => ["--output", path]
  | .noSchemaWiring => ["--no-schema-wiring"]
  | .noDescriptions => ["--no-descriptions"]
  | .scalarArgsOnly => ["--scalar-args-only"]
  | .header text => ["--header", text]
  | .excludePrefix start => ["--exclude-prefix", start]
  | .verbose => ["--verbose"]

def given : Choice → Given Key
  | .schema path => ⟨.schema, path⟩
  | .output path => ⟨.output, path⟩
  | .noSchemaWiring => { key := .noSchemaWiring }
  | .noDescriptions => { key := .noDescriptions }
  | .scalarArgsOnly => { key := .scalarArgsOnly }
  | .header text => ⟨.header, text⟩
  | .excludePrefix start => ⟨.excludePrefix, start⟩
  | .verbose => { key := .verbose }

def schema? : Choice → Option String
  | .schema path => some path
  | _ => none

def output? : Choice → Option String
  | .output path => some path
  | _ => none

def header? : Choice → Option String
  | .header text => some text
  | _ => none

def excludePrefix? : Choice → Option String
  | .excludePrefix start => some start
  | _ => none

theorem readArguments_choice (choice : Choice) (rest : List String) :
    readArguments optionSpecs true (choice.spelled ++ rest) =
      readArguments optionSpecs true rest >>= fun arguments =>
        pure (arguments.prepend [choice.given]) := by
  cases choice <;> rfl

/-- Values are taken as they are, also if they look like options. -/
theorem readArguments_spelled (choices : List Choice) :
    readArguments optionSpecs true (choices.flatMap spelled) =
      .ok { given := choices.map given } := by
  induction choices with
  | nil => rfl
  | cons choice rest ih =>
      rw [List.flatMap_cons, readArguments_choice, ih]
      rfl

/-- The value given last counts. -/
def last? (value? : Choice → Option String) (choices : List Choice) : Option String :=
  (choices.filterMap value?).getLast?

theorem valueOf?_given {key : Key} {value? : Choice → Option String}
    (own : ∀ choice : Choice, value? choice =
      if choice.given.key = key then some choice.given.value else none) (choices : List Choice) :
    valueOf? (choices.map given) key = last? value? choices := by
  rw [valueOf?, last?, List.getLast?_filterMap, ← List.map_reverse]
  induction choices.reverse with
  | nil => rfl
  | cons choice rest ih =>
      rw [List.map_cons, List.find?_cons, List.findSome?_cons, own]
      by_cases same : choice.given.key = key
      · simp [same]
      · simpa [same] using ih

theorem isGiven_flag {key : Key} {flag : Choice}
    (own : ∀ choice : Choice, choice.given.key = key ↔ choice = flag) (choices : List Choice) :
    isGiven (choices.map given) key = decide (flag ∈ choices) := by
  rw [Bool.eq_iff_iff]
  simp [isGiven, own]

/-- What the command makes of the choices. -/
def options (choices : List Choice) (schema : String) : Options where
  schema := schema
  output := (last? output? choices).getD "gen.py"
  wiring := .noSchemaWiring ∉ choices
  descriptions := .noDescriptions ∉ choices
  scalarArgumentsOnly := .scalarArgsOnly ∈ choices
  header := (last? header? choices).getD ""
  excludedStart := (last? excludePrefix? choices).getD ""
  verbose := .verbose ∈ choices

variable {place : Place} {choices : List Choice} {schema : String}

theorem valueOf?_templateDir (choices : List Choice) :
    valueOf? (choices.map given) .templateDir = none := by
  rw [valueOf?, Option.map_eq_none_iff, List.find?_eq_none]
  intro option listed
  obtain ⟨choice, _, rfl⟩ := List.mem_map.mp (List.mem_reverse.mp listed)
  cases choice <;> simp [given]

theorem valueOf?_schema (choices : List Choice) :
    valueOf? (choices.map given) .schema = last? schema? choices :=
  valueOf?_given (by intro choice; cases choice <;> rfl) choices

theorem checkValues_given (chosen : last? schema? choices = some schema)
    (there : (place.entry? schema).isSome) (rest : List (Given Key)) :
    checkValues place (choices.map given) rest = .ok () := by
  have found : checkSchema place schema = .ok () := by
    obtain ⟨entry, stands⟩ := Option.isSome_iff_exists.mp there
    rw [checkSchema, stands]
  have checked (key : Key) : checkValue place (choices.map given) key = .ok () := by
    cases key with
    | schema => simp only [checkValue, valueOf?_schema, chosen, found]
    | templateDir => simp only [checkValue, valueOf?_templateDir]
    | _ => rfl
  induction rest with
  | nil => rfl
  | cons option rest ih => rw [checkValues, checked, ih]; rfl

theorem optionsOf_given (chosen : last? schema? choices = some schema)
    (there : (place.entry? schema).isSome) :
    optionsOf place { given := choices.map given } = .ok (options choices schema) := by
  have output : valueOf? (choices.map given) .output = last? output? choices :=
    valueOf?_given (by intro choice; cases choice <;> rfl) choices
  have header : valueOf? (choices.map given) .header = last? header? choices :=
    valueOf?_given (by intro choice; cases choice <;> rfl) choices
  have excluded : valueOf? (choices.map given) .excludePrefix = last? excludePrefix? choices :=
    valueOf?_given (by intro choice; cases choice <;> rfl) choices
  have wiring : isGiven (choices.map given) .noSchemaWiring = decide (.noSchemaWiring ∈ choices) :=
    isGiven_flag (by intro choice; cases choice <;> simp [given]) choices
  have descriptions :
      isGiven (choices.map given) .noDescriptions = decide (.noDescriptions ∈ choices) :=
    isGiven_flag (by intro choice; cases choice <;> simp [given]) choices
  have scalars : isGiven (choices.map given) .scalarArgsOnly = decide (.scalarArgsOnly ∈ choices) :=
    isGiven_flag (by intro choice; cases choice <;> simp [given]) choices
  have verbose : isGiven (choices.map given) .verbose = decide (.verbose ∈ choices) :=
    isGiven_flag (by intro choice; cases choice <;> simp [given]) choices
  simp only [optionsOf, checkValues_given chosen there, valueOf?_schema, chosen, output, header,
    excluded, valueOf?_templateDir, wiring, descriptions, scalars, verbose]
  simp [options, bind, Except.bind, pure, Except.pure]

/-- The generator that the choices ask for. A filter or a header is added also if its text
is empty. -/
def generator (choices : List Choice) (file : String) : Generator where
  settings := {
    wiring := .noSchemaWiring ∉ choices
    descriptions := .noDescriptions ∉ choices
    scalarArgumentsOnly := .scalarArgsOnly ∈ choices
    outputFile := file }
  hooks := {
    before := (last? excludePrefix? choices).toList.map fun start =>
      Hook.ofFilter { excludedStart := some start }
    after := (last? header? choices).toList.map Hook.ofHeader }

theorem generator_agrees (place : Place) (choices : List Choice) (schema file : String) :
    (generatorOf place (options choices schema)).Agrees (generator choices file) where
  build document := by
    have same := Build.buildModule_outputFile (generator choices file).settings
      (nameOf (Path.resolve place.start (options choices schema).output)) document
    exact congrArg (Except.mapError Failure.refused) same
  template := rfl
  before document := by
    refine (runBefore_hooksOf (options choices schema) document).trans ?_
    rw [options, Hooks.runBefore, generator]
    cases last? excludePrefix? choices with
    | none => exact apply_empty document
    | some start => rfl
  after file other content := by
    refine (runAfter_hooksOf (options choices schema) file content).trans ?_
    rw [options, Hooks.runAfter, generator]
    cases last? header? choices with
    | none => exact addTo_empty content
    | some text => rfl

end Choice

end Choices

section Files

variable {place : Place} {options : Options} {text : String}

theorem schemaFiles_file {schema : String} (stored : place.entry? schema = some (.file text)) :
    ∃ path, place.tree.schemaFiles place.start schema = [⟨path, readText text⟩] := by
  unfold Place.entry? at stored
  split at stored
  · cases stored
  · obtain ⟨path, located, entry⟩ := Option.bind_eq_some_iff.mp stored
    have file : place.tree.file? path = some text := by
      unfold FileTree.entry? at entry
      split at entry
      · rename_i found
        cases entry
        exact found
      · split at entry <;> cases entry
    refine ⟨path, ?_⟩
    simp only [FileTree.schemaFiles, located, file]

/-- What is loaded from a file is what can be read from the text in it. -/
theorem load_file {schema : String} (stored : place.entry? schema = some (.file text)) :
    (place.tree.load place.start schema).outcome.toOption =
      if Text.isBlankText text then some [] else (Sdl.readDocument text).toOption := by
  obtain ⟨path, files⟩ := schemaFiles_file stored
  simp only [FileTree.load, files, loadFiles, readText_blank]
  split
  · rfl
  · rw [(Sdl.readDocument_unify text).toOption, ← readText]
    cases Sdl.readDocument (readText text) with
    | error fault => rfl
    | ok document => simp [Except.map, Except.toOption]

theorem generateDocument_nil (place : Place) (options : Options) (name : Option String) :
    ∃ built, (generatorOf place options).generateDocument [] name = .ok ⟨built, ""⟩ := by
  have nothing : (generatorOf place options).hooks.runBefore [] = [] :=
    runBefore_hooksOf options []
  rw [Generator.generateDocument, nothing]
  exact ⟨_, rfl⟩

/-- A blank file is loaded as no definition, and a blank text is not read, with the same
result. -/
theorem generates_iff (stored : place.entry? options.schema = some (.file text))
    (content : String) :
    (∃ generated, Generates place options generated ∧ generated.content = content) ↔
      ((generatorOf place options).generate text
        (some (nameOf (outputPath place options)))).toOption = some content := by
  rw [Generator.generate_toOption]
  simp only [Generates, ← Generator.toOption_eq_some, load_file stored]
  split
  · obtain ⟨built, made⟩ :=
      generateDocument_nil place options (some (nameOf (outputPath place options)))
    simp [made, Except.toOption]
  · simp only [Option.bind_eq_some_iff, Option.map_eq_some_iff]
    constructor
    · rintro ⟨generated, ⟨document, read, made⟩, same⟩
      exact ⟨document, read, generated, made, same⟩
    · rintro ⟨document, read, generated, made, same⟩
      exact ⟨generated, ⟨document, read, made⟩, same⟩

end Files

section Runs

/-- The path of the file to write. -/
def Choice.target (place : Place) (choices : List Choice) : Path :=
  Path.resolve place.start ((last? output? choices).getD "gen.py")

theorem run_spelled {place : Place} {choices : List Choice} {inner : List String}
    {schema : String} (chosen : Choice.last? Choice.schema? choices = some schema)
    (there : (place.entry? schema).isSome)
    (spelled : readArguments optionSpecs true inner =
      readArguments optionSpecs true (choices.flatMap Choice.spelled)) :
    run place ("generate" :: inner) = runGenerate place (Choice.options choices schema) := by
  have parsed := spelled.trans (Choice.readArguments_spelled choices)
  have noHelp : isGiven (choices.map Choice.given) .help = false := by
    rw [isGiven, List.any_map, List.any_eq_false]
    intro choice _
    cases choice <;> simp [Choice.given]
  have called : generateCall? ("generate" :: inner) = some inner := rfl
  rw [run_generateCall called, runGenerateArguments, parsed]
  simp only [noHelp, Choice.optionsOf_given chosen there]
  rfl

/-- On a single file the command succeeds exactly if the generator of its options makes a
text of the one in the file, and it writes that text. The line ends in the file, the spelling
and order of the options and the name set for the output file make no difference. -/
theorem run_schemaFile {place : Place} {choices : List Choice} {inner : List String}
    {schema text : String}
    (spelled : readArguments optionSpecs true inner =
      readArguments optionSpecs true (choices.flatMap Choice.spelled))
    (chosen : Choice.last? Choice.schema? choices = some schema)
    (stored : place.entry? schema = some (.file text))
    (writable : ∀ content, ∃ after,
      place.tree.write (Choice.target place choices) content = .ok after) (file : String) :
    let made := (Choice.generator choices file).generate text
      (some (nameOf (Choice.target place choices)))
    ((run place ("generate" :: inner)).exitCode = 0 ↔ ∃ content, made = .ok content) ∧
    ∀ content, made = .ok content →
      (run place ("generate" :: inner)).tree.file? (Choice.target place choices) =
        some content := by
  intro made
  rw [run_spelled chosen (by rw [stored]; rfl) spelled]
  have known (content : String) : made = .ok content ↔
      ∃ generated, Generates place (Choice.options choices schema) generated ∧
        generated.content = content := by
    have agrees := Choice.generator_agrees place choices schema file
    rw [generates_iff stored content,
      agrees.generate text _ (some (nameOf (Choice.target place choices))),
      Generator.toOption_eq_some]
  constructor
  · constructor
    · intro done
      rcases runGenerate_cases place (Choice.options choices schema) with fails |
        ⟨generated, _, generates, _⟩
      · exact absurd done fails.exitCode
      · exact ⟨generated.content, (known _).mpr ⟨generated, generates, rfl⟩⟩
    · rintro ⟨content, done⟩
      obtain ⟨generated, generates, rfl⟩ := (known content).mp done
      obtain ⟨after, written⟩ := writable generated.content
      exact (runGenerate_leaves generates written).exitCode
  · intro content done
    obtain ⟨generated, generates, rfl⟩ := (known content).mp done
    obtain ⟨after, written⟩ := writable generated.content
    rw [(runGenerate_leaves generates written).tree, FileTree.write_eq_put written]
    exact FileTree.file?_put _ _ _

/-- Lines that end in all three ways, one of them within a string. -/
def shelfText : String :=
  "\"\"\"One\r\n two\"\"\"\rscalar Isbn # Old too\nscalar OldCode"

/-- The line ends within an escape. -/
def brokenText : String :=
  "scalar Isbn \"\\u12\r\n\""

def shelfPlace : Place where
  tree := { files := [(["a.gql"], shelfText), (["b.gql"], brokenText)] }

def shelfChoices (schema : String) : List Choice :=
  [.verbose, .schema schema, .header "", .excludePrefix "Old", .output "x.py", .noSchemaWiring]

/-- The same choices in short. -/
def shelfArguments (schema : String) : List String :=
  ["-vs", schema, "--header=", "--exclude-prefix", "Old", "-ox.py", "--no-schema-wiring"]

def shelfModule : String :=
  "from graphene import Scalar\n\nclass Isbn(Scalar):\n  '''One\ntwo'''\n  pass\n"

theorem run_shelfPlace :
    (Choice.generator (shelfChoices "a.gql") "y.py").generate shelfText (some "x.py") =
      .ok shelfModule ∧
    (run shelfPlace ("generate" :: shelfArguments "a.gql")).exitCode = 0 ∧
    (run shelfPlace ("generate" :: shelfArguments "a.gql")).tree.file? ["x.py"] =
      some shelfModule ∧
    (run shelfPlace ("generate" :: shelfArguments "b.gql")).exitCode ≠ 0 := by
  have spelled (schema : String) : readArguments optionSpecs true (shelfArguments schema) =
      readArguments optionSpecs true ((shelfChoices schema).flatMap Choice.spelled) := by
    rw [Choice.readArguments_spelled]
    rfl
  have target (schema : String) : Choice.target shelfPlace (shelfChoices schema) = ["x.py"] := by
    change Path.resolve [] "x.py" = ["x.py"]
    decide +kernel
  have writable (schema content : String) : ∃ after,
      shelfPlace.tree.write (Choice.target shelfPlace (shelfChoices schema)) content =
        .ok after := by
    rw [target]
    exact ⟨_, rfl⟩
  have stored : shelfPlace.entry? "a.gql" = some (.file shelfText) := by decide +kernel
  have alsoStored : shelfPlace.entry? "b.gql" = some (.file brokenText) := by decide +kernel
  have made : (Choice.generator (shelfChoices "a.gql") "y.py").generate shelfText (some "x.py") =
      .ok shelfModule := Generator.toOption_eq_some.mp (by decide +kernel)
  have unread : ((Choice.generator (shelfChoices "b.gql") "y.py").generate brokenText
      (some "x.py")).toOption = none := by decide +kernel
  obtain ⟨succeeds, writes⟩ :=
    run_schemaFile (spelled "a.gql") rfl stored (writable "a.gql") "y.py"
  obtain ⟨fails, _⟩ := run_schemaFile (spelled "b.gql") rfl alsoStored (writable "b.gql") "y.py"
  have name : nameOf ["x.py"] = "x.py" := rfl
  simp only [target, name] at succeeds writes fails
  refine ⟨made, succeeds.mpr ⟨_, made⟩, writes _ made, fun done => ?_⟩
  obtain ⟨content, read⟩ := fails.mp done
  cases unread.symm.trans (Generator.toOption_eq_some.mpr read)

end Runs

end Command

end SchemaClasses
