import SchemaClasses.Build.Declare

/-!
Sessions: constructions one after another on one context, under settings that may
change in between. A step that is refused leaves its notes in the context.
-/

namespace SchemaClasses.Build

open Schema Output

structure Session where
  settings : Settings := {}
  context : Context := {}
  deriving DecidableEq, Repr

inductive Step where
  | addSymbol (symbol : String)
  | configure (setting : Setting)
  | resolveType (type : TypeTree)
  | declareType (type : TypeTree) (keywords container : String)
  | namedType (type : TypeTree)
  | keywords (source : Member)
  | argument (source : InputValue)
  | member (source : Member)
  | members (sources : List Member)
  | declare (document : Document)
  deriving DecidableEq, Repr

inductive Answer where
  | nothing
  | text (text : String)
  | member (result : Attribute)
  | members (results : List Attribute)
  | classes (results : List (Option ClassDeclaration))
  deriving DecidableEq, Repr

namespace Step

/-- The settings after a step. -/
def settings (settings : Settings) : Step → Settings
  | .configure setting => settings.change setting
  | _ => settings

def perform (settings : Settings) : Step → Recorded Answer
  | .addSymbol symbol => do
      Recorded.uses symbol
      return .nothing
  | .configure _ => return .nothing
  | .resolveType type => do
      let text ← Build.resolveType type
      return .text text
  | .declareType type extra container => do
      let text ← Build.declareType type extra container
      return .text text
  | .namedType type => do
      let name ← Recorded.ofExcept (Build.namedType type)
      return .text name
  | .keywords source => do
      let written ← source.keywords settings
      return .text (renderKeywords written)
  | .argument source => do
      let text ← argumentDeclaration settings source
      return .text text
  | .member source => do
      let result ← source.toAttribute settings
      return .member result
  | .members sources => do
      let results ← Recorded.each (Member.toAttribute settings) sources
      return .members results
  | .declare document => do
      let results ← declareAll settings document
      return .classes results

end Step

def Session.step (session : Session) (step : Step) : Except Refusal Answer × Session :=
  let (outcome, context) := (step.perform session.settings).runIn session.context
  (outcome, ⟨step.settings session.settings, context⟩)

/-- The outcomes of all steps, each with the session after it. -/
def Session.run (session : Session) : List Step → List (Except Refusal Answer × Session)
  | [] => []
  | step :: rest =>
      let (outcome, next) := session.step step
      (outcome, next) :: next.run rest

end SchemaClasses.Build
