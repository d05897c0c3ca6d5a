import SchemaClasses.Proofs.NullCharacters
import SchemaClasses.Proofs.SchemaFile
import SchemaClasses.Proofs.ValidOutput

/-!
How a generation can fail. A text that cannot be read, an argument that is refused and a module
that does not compile are failures that are declared, and the command reports them. A null
character in a description passes the reader and stops the check in a way that is not declared:
it escapes the command. Nothing else does.
-/

namespace SchemaClasses

open Schema Naming Build Output Check

/-- Whether the failure is of a kind that callers are told to expect. -/
def Failure.Declared : Failure → Prop
  | .nullCharacter => False
  | _ => True

theorem Failure.not_declared_iff {failure : Failure} :
    ¬ failure.Declared ↔ failure = .nullCharacter := by
  cases failure <;> simp [Declared]

namespace Generator

/-- The module comes out as it is built and rendered. -/
structure Plain (generator : Generator) : Prop where
  framework : generator.settings.framework = "graphene"
  template : generator.template = none
  before : generator.hooks.before = []
  after : generator.hooks.after = []

/-- A module can be built, and a description in it holds a null character. -/
def WritesNull (settings : Settings) (document : Document) : Prop :=
  (∃ built, buildModule settings document = .ok built) ∧
    ∃ text ∈ writtenDescriptions settings document, '\x00' ∈ text.toList

section Documents

theorem problem?_null_iff (text : String) :
    problem? text = some .nullCharacter ↔ ¬ NoNull text := by
  unfold problem? NoNull
  by_cases null : '\x00' ∈ text.toList
  · simp [null]
  · cases outline text <;> simp [null]

theorem check_null_iff (file content : String) :
    check file content = .error .nullCharacter ↔ ¬ NoNull content := by
  rw [← problem?_null_iff]
  unfold check
  cases problem? content with
  | none => simp
  | some problem => cases problem <;> simp

theorem generateDocument_refused {generator : Generator} {document : Document} {refusal : Refusal}
    (refused : buildModule generator.settings (generator.hooks.runBefore document) =
      .error refusal) (filename : Option String) :
    generator.generateDocument document filename = .error (.refused refusal) := by
  have stopped : generator.build (generator.hooks.runBefore document) =
      .error (.refused refusal) := by
    rw [build, refused]
    rfl
  rw [generateDocument, stopped]
  rfl

theorem generateDocument_null_iff {generator : Generator}
    (framework : generator.settings.framework = "graphene")
    (template : generator.template = none) (noHooks : generator.hooks.after = [])
    (document : Document) (filename : Option String) :
    generator.generateDocument document filename = .error .nullCharacter ↔
      WritesNull generator.settings (generator.hooks.runBefore document) := by
  unfold WritesNull
  cases made : buildModule generator.settings (generator.hooks.runBefore document) with
  | error refusal => simp [generateDocument_refused made]
  | ok built =>
      -- From here on the only check is that of the text.
      obtain ⟨admitted, rfl⟩ := buildModule_ok_iff.mp made
      have clear : NoNull generator.settings.framework := by
        rw [framework]
        decide
      have failed : generator.generateDocument document filename = .error .nullCharacter ↔
          check (generator.fileName filename)
            (writtenModule generator.settings (generator.hooks.runBefore document)).render =
              .error .nullCharacter := by
        rw [generateDocument_eq template noHooks admitted]
        cases check (generator.fileName filename)
          (writtenModule generator.settings (generator.hooks.runBefore document)).render <;>
            simp [Except.map]
      rw [failed, check_null_iff, noNull_writtenModule clear]
      simp [NoNull]

theorem generateDocument_accepted {generator : Generator} {document : Document}
    {filename : Option String} {generated : Generated} (template : generator.template = none)
    (noHooks : generator.hooks.after = [])
    (done : generator.generateDocument document filename = .ok generated) :
    problem? generated.content = none := by
  cases made : buildModule generator.settings (generator.hooks.runBefore document) with
  | error refusal =>
      rw [generateDocument_refused made] at done
      cases done
  | ok built =>
      have admitted := (buildModule_ok_iff.mp made).1
      obtain ⟨accepted, rfl⟩ :=
        (generateDocument_eq_ok template noHooks admitted filename generated).mp done
      exact accepted

end Documents

section Texts

theorem readSchema_ok {source : String} {document : Document}
    (read : Sdl.readDocument source = .ok document) : readSchema source = .ok document := by
  rw [readSchema, read]
  rfl

theorem readSchema_error {source : String} {fault : Sdl.Fault}
    (unread : Sdl.readDocument source = .error fault) :
    readSchema source = .error (.unreadable source fault) := by
  rw [readSchema, unread]
  rfl

theorem generate_error_iff (generator : Generator) (source : String) (filename : Option String)
    (failure : Failure) :
    generator.generate source filename = .error failure ↔
      Text.isBlankText source = false ∧
        ((∃ fault, Sdl.readDocument source = .error fault ∧
            failure = .unreadable source fault) ∨
          ∃ document, Sdl.readDocument source = .ok document ∧
            generator.generateDocument document filename = .error failure) := by
  unfold generate
  cases blank : Text.isBlankText source with
  | true => simp [pure, Except.pure]
  | false =>
      cases read : Sdl.readDocument source with
      | error fault => simp [readSchema_error read, bind, Except.bind, eq_comm]
      | ok document =>
          cases made : generator.generateDocument document filename <;>
            simp [readSchema_ok read, bind, Except.bind, pure, Except.pure, made]

theorem generate_accepted {generator : Generator} (plain : generator.Plain) {source : String}
    {filename : Option String} {content : String}
    (done : generator.generate source filename = .ok content) : problem? content = none := by
  rw [← toOption_eq_some, generate_toOption] at done
  split at done
  · cases done
    decide +kernel
  · obtain ⟨document, _, mapped⟩ := Option.bind_eq_some_iff.mp done
    obtain ⟨generated, made, rfl⟩ := Option.map_eq_some_iff.mp mapped
    exact generateDocument_accepted plain.template plain.after (toOption_eq_some.mp made)

theorem generate_undeclared_iff {generator : Generator} (plain : generator.Plain)
    (source : String) (filename : Option String) :
    (∃ failure, generator.generate source filename = .error failure ∧ ¬ failure.Declared) ↔
      Text.isBlankText source = false ∧
        ∃ document, Sdl.readDocument source = .ok document ∧
          WritesNull generator.settings document := by
  have unchanged : ∀ document, generator.hooks.runBefore document = document := by
    simp [Hooks.runBefore, plain.before]
  simp only [Failure.not_declared_iff, exists_eq_right, generate_error_iff,
    generateDocument_null_iff plain.framework plain.template plain.after, unchanged]
  simp

end Texts

end Generator

namespace Command

open Files

section Runs

/-- The command tells the message, and nothing goes past it. -/
structure Outcome.Reports (outcome : Outcome) (message : String) : Prop where
  exitCode : outcome.exitCode = 1
  stderr : outcome.stderr = "Error: " ++ message ++ "\n"
  escaped : outcome.escaped = none

/-- The command ends by a null character and tells nothing. -/
structure Outcome.EscapesByNull (outcome : Outcome) : Prop where
  exitCode : outcome.exitCode = 1
  stderr : outcome.stderr = ""
  escaped : outcome.escaped = some .nullCharacter

/-- The outcome of the generation in a run. -/
def generation (place : Place) (options : Options) (document : Document) :
    Except Failure Generated :=
  (generatorOf place options).generateDocument document
    (some (nameOf (outputPath place options)))

theorem runGenerate_unloaded {place : Place} {options : Options} {loadFault : LoadFault}
    (unloaded : (place.tree.load place.start options.schema).outcome = .error loadFault) :
    (runGenerate place options).Reports loadFault.report := by
  simp only [runGenerate, unloaded]
  exact ⟨rfl, rfl, rfl⟩

theorem runGenerate_declared {place : Place} {options : Options} {document : Document}
    {failure : Failure}
    (loaded : (place.tree.load place.start options.schema).outcome = .ok document)
    (stopped : generation place options document = .error failure) (declared : failure.Declared) :
    (runGenerate place options).Reports failure.message := by
  rw [generation, outputPath] at stopped
  simp only [runGenerate, loaded, generateFrom, stopped]
  cases failure with
  | nullCharacter => exact declared.elim
  | _ => exact ⟨rfl, rfl, rfl⟩

theorem runGenerate_undeclared {place : Place} {options : Options} {document : Document}
    {failure : Failure}
    (loaded : (place.tree.load place.start options.schema).outcome = .ok document)
    (stopped : generation place options document = .error failure)
    (undeclared : ¬ failure.Declared) : (runGenerate place options).EscapesByNull := by
  rw [Failure.not_declared_iff.mp undeclared, generation, outputPath] at stopped
  simp only [runGenerate, loaded, generateFrom, stopped]
  exact ⟨rfl, rfl, rfl⟩

/-- Only a failure that is not declared makes the command end by a null character. -/
theorem runGenerate_null_iff {place : Place} {options : Options} {document : Document}
    (loaded : (place.tree.load place.start options.schema).outcome = .ok document) :
    (runGenerate place options).escaped = some .nullCharacter ↔
      ∃ failure, generation place options document = .error failure ∧ ¬ failure.Declared := by
  constructor
  · intro escaped
    cases made : generation place options document with
    | error failure =>
        refine ⟨failure, rfl, fun declared => ?_⟩
        rw [(runGenerate_declared loaded made declared).escaped] at escaped
        cases escaped
    | ok generated =>
        rw [generation, outputPath] at made
        simp only [runGenerate, loaded, generateFrom, made, writeOutput] at escaped
        split at escaped
        · simp [escape] at escaped
        · cases escaped
  · rintro ⟨failure, stopped, undeclared⟩
    exact (runGenerate_undeclared loaded stopped undeclared).escaped

/-- The arguments call `generate` with these options, and do not ask for help. -/
def Calls (place : Place) (arguments : List String) (options : Options) : Prop :=
  ∃ inner parsed, generateCall? arguments = some inner ∧
    readArguments optionSpecs true inner = .ok parsed ∧ isGiven parsed.given .help = false ∧
    optionsOf place parsed = .ok options

theorem run_calls {place : Place} {arguments : List String} {options : Options}
    (called : Calls place arguments options) :
    run place arguments = runGenerate place options := by
  obtain ⟨inner, parsed, call, read, noHelp, chosen⟩ := called
  rw [run_generateCall call, runGenerateArguments, read]
  simp only [noHelp, chosen]
  rfl

end Runs

section Failures

theorem runGenerate_writesNull_iff {place : Place} {options : Options} {document : Document}
    (loaded : (place.tree.load place.start options.schema).outcome = .ok document)
    (template : (generatorOf place options).template = none) (noHeader : options.header = "") :
    (runGenerate place options).escaped = some .nullCharacter ↔
      Generator.WritesNull (generatorOf place options).settings
        ((hooksOf options).runBefore document) := by
  have after : (generatorOf place options).hooks.after = [] := by
    simp [generatorOf, hooksOf, noHeader]
  rw [runGenerate_null_iff loaded]
  simp only [Failure.not_declared_iff, exists_eq_right, generation]
  exact Generator.generateDocument_null_iff rfl template after document _

/-- The description of a field is a single null character. -/
def markedText : String := "type A \x7b \"\\u0000\" a: Int \x7d"

def markedDocument : Document :=
  [.type ⟨named "A", none,
    .object [] [⟨named "a", some "\x00", [], .leaf (named "Int")⟩]⟩]

theorem readDocument_markedText : Sdl.readDocument markedText = .ok markedDocument :=
  Generator.toOption_eq_some.mp (by decide +kernel)

theorem writesNull_markedDocument : Generator.WritesNull {} markedDocument :=
  ⟨⟨_, buildModule_eq fun _ _ member _ => member.admitted_of_open rfl⟩, by decide +kernel⟩

/-- A file with this text, and one that breaks off. -/
def markedPlace : Place where
  tree := { files := [(["a.gql"], markedText), (["b.gql"], "type A \x7b")] }

def markedCall (schema : String) : List String := ["generate", "--schema", schema]

theorem calls_markedPlace :
    Calls markedPlace (markedCall "a.gql") { schema := "a.gql" } ∧
      Calls markedPlace (markedCall "b.gql") { schema := "b.gql" } :=
  ⟨⟨_, _, rfl, rfl, rfl, rfl⟩, ⟨_, _, rfl, rfl, rfl, rfl⟩⟩

theorem load_markedPlace :
    (markedPlace.tree.load markedPlace.start "a.gql").outcome = .ok markedDocument :=
  Generator.toOption_eq_some.mp (by decide +kernel)

end Failures

end Command

end SchemaClasses
