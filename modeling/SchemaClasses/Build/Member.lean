import SchemaClasses.Build.Keyword
import SchemaClasses.Output.Basic

/-!
Members of a class: the fields of objects and interfaces, and those of input types,
which have no arguments.
-/

namespace SchemaClasses.Build

open Schema Naming Output

inductive Member where
  | field (source : Field)
  | input (source : InputValue)
  deriving DecidableEq, Repr

namespace Member

def name : Member → String
  | .field source => source.name.text
  | .input source => source.name.text

def description : Member → Option String
  | .field source => source.description
  | .input source => source.description

def type : Member → TypeRef
  | .field source => source.type
  | .input source => source.type

def arguments : Member → List InputValue
  | .field source => source.arguments
  | .input _ => []

def container : Member → String
  | .field _ => "Field"
  | .input _ => "InputField"

/-- The keywords for the constructor itself, whose names are then taken. -/
def ownKeywords (settings : Settings) (member : Member) : List Keyword :=
  nameKeyword member.name ++ descriptionKeyword settings member.description

def keywords (settings : Settings) (member : Member) : Recorded (List Keyword) := do
  let own := member.ownKeywords settings
  let others ← argumentKeywords settings member.name (own.map Keyword.name) member.arguments []
  return own ++ others

/-- The symbols of the arguments are needed before those of the member's own type. -/
def toAttribute (settings : Settings) (member : Member) : Recorded Attribute := do
  let keywords ← member.keywords settings
  let value ← declareType (TypeRef.tree member.type) (renderKeywords keywords) member.container
  return ⟨attributeName member.name, value⟩

end Member

/-- The members of a type that has fields. -/
def members : TypeBody → List Member
  | .object _ fields => fields.map .field
  | .interface _ fields => fields.map .field
  | .input fields => fields.map .input
  | .scalar => []
  | .enum _ => []
  | .union _ => []

end SchemaClasses.Build
