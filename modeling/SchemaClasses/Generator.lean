import SchemaClasses.Build.Declare
import SchemaClasses.Check.Compile
import SchemaClasses.Hook.Basic
import SchemaClasses.Output.Render
import SchemaClasses.Sdl.Read
import SchemaClasses.Text.Blank

/-!
Generation from schema text to module text. The text is checked after the hooks have
run on it. A document that makes no class gives an empty text, which no hook sees.
-/

namespace SchemaClasses

open Schema Build Output

structure Generator where
  settings : Settings := {}
  /-- A text that stands in place of the rendered module. -/
  template : Option String := none
  hooks : Hooks := {}

inductive Failure where
  | unreadable (source : String) (fault : Sdl.Fault)
  | refused (refusal : Refusal)
  | uncompilable (file : String) (flaw : Check.Flaw)
  | nullCharacter
  deriving DecidableEq, Repr

def Failure.message : Failure → String
  | .unreadable source fault => fault.report source
  | .refused refusal => refusal.message
  | .uncompilable file flaw => flaw.message file
  | .nullCharacter => "source code string cannot contain null bytes"

structure Generated where
  document : ClassModule
  content : String
  deriving DecidableEq, Repr

namespace Generator

def readSchema (source : String) : Except Failure Document :=
  (Sdl.readDocument source).mapError (.unreadable source)

def build (generator : Generator) (document : Document) : Except Failure ClassModule :=
  (buildModule generator.settings document).mapError .refused

def render (generator : Generator) (document : ClassModule) : String :=
  if document.classes.isEmpty then "" else generator.template.getD document.render

/-- An empty file name counts as none. -/
def fileName (generator : Generator) (filename : Option String) : String :=
  (filename.filter (!·.isEmpty)).getD generator.settings.outputFile

def check (file content : String) : Except Failure Unit :=
  match Check.problem? content with
  | none => .ok ()
  | some .nullCharacter => .error .nullCharacter
  | some (.flaw flaw) => .error (.uncompilable file flaw)

def generateDocument (generator : Generator) (document : Document) (filename : Option String) :
    Except Failure Generated := do
  let classModule ← generator.build (generator.hooks.runBefore document)
  if classModule.classes.isEmpty then return ⟨classModule, ""⟩
  let file := generator.fileName filename
  let content := generator.hooks.runAfter file (generator.render classModule)
  check file content
  return ⟨classModule, content⟩

/-- A blank text is not read at all. -/
def generate (generator : Generator) (source : String) (filename : Option String) :
    Except Failure String := do
  if Text.isBlankText source then return ""
  let document ← readSchema source
  let generated ← generator.generateDocument document filename
  return generated.content

end Generator

end SchemaClasses
