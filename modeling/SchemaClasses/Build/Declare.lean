import SchemaClasses.Build.Context
import SchemaClasses.Build.Member

/-!
From definitions to class declarations. Every type definition makes one class; a
schema block only names root types, and everything else is passed over.
-/

namespace SchemaClasses.Build

open Schema Naming Output

def baseOf : TypeKind → String
  | .object => "ObjectType"
  | .input => "InputObjectType"
  | .interface => "Interface"
  | .scalar => "Scalar"
  | .enum => "Enum"
  | .union => "Union"

/-- The root types that a type stands for by its name alone. -/
def rootOffers (name : String) : TypeKind → List Note
  | .object =>
      if name = "Mutation" then [.offers .mutation name]
      else if name = "Subscription" then [.offers .subscription name]
      else []
  | _ => []

def nonEmptyEntry (key : String) (names : List Name) : Entries (List String) :=
  if names.isEmpty then [] else [(key, names.map Name.text)]

def metaEntriesOf : TypeBody → Entries (List String)
  | .object interfaces _ => nonEmptyEntry "interfaces" interfaces
  | .union members => nonEmptyEntry "types" members
  | _ => []

/-- Enum members are numbered by position. -/
def enumMembers (values : List Name) : List Attribute :=
  values.zipIdx.map fun (value, index) => ⟨safeIdentifier value.text, toString index⟩

def attributesOf (settings : Settings) : TypeBody → Recorded (List Attribute)
  | .enum values => return enumMembers values
  | body => Recorded.each (Member.toAttribute settings) (members body)

def declareClass (settings : Settings) (definition : TypeDefinition) : Recorded ClassDeclaration := do
  let name := definition.name.text
  let kind := definition.body.kind
  Recorded.uses (baseOf kind)
  Recorded.record (rootOffers name kind)
  let attributes ← attributesOf settings definition.body
  return {
    name
    base := baseOf kind
    description := settings.described definition.description
    metaEntries := metaEntriesOf definition.body
    attributes }

def appointments (roots : List (Operation × Name)) : List Note :=
  roots.map fun root => .appoints root.1 root.2.text

def declare (settings : Settings) : Definition → Recorded (Option ClassDeclaration)
  | .schema _ roots => do
      Recorded.record (appointments roots)
      return none
  | .type definition => do
      let declaration ← declareClass settings definition
      return some declaration
  | _ => return none

def declareAll (settings : Settings) (document : Document) :
    Recorded (List (Option ClassDeclaration)) :=
  Recorded.each (declare settings) document

section

/-! The module of a whole document. -/

/-- The wiring statement needs its symbol before anything else does. -/
def wiringNotes (settings : Settings) : List Note :=
  if settings.wiring then [.uses "Schema"] else []

def finalContext (settings : Settings) (document : Document) : Context :=
  Context.recordAll {} (wiringNotes settings ++ (declareAll settings document).notes)

def Context.wiring (context : Context) : Wiring :=
  ⟨context.query, context.mutation, context.subscription⟩

def buildModule (settings : Settings) (document : Document) : Except Refusal ClassModule := do
  let declarations ← (declareAll settings document).outcome
  let context := finalContext settings document
  return {
    framework := settings.framework
    imports := context.symbols
    classes := declarations.filterMap id
    schema := if settings.wiring then some context.wiring else none }

end

end SchemaClasses.Build
