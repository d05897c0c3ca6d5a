import SchemaClasses.Sdl.Grammar.Executable

/-!
Definitions and extensions of the type system, and whole documents.
-/

namespace SchemaClasses.Sdl.Grammar

open Schema Rule

section

/-! Fields, arguments and enum values. -/

def inputValue : Rule InputValue := do
  let described ← description
  let named ← name
  expect .colon
  let type ← typeRef
  if ← skip .equals then value true
  let _ ← directives true
  return ⟨named, described, type⟩

def field : Rule Field := do
  let described ← description
  let named ← name
  let arguments ← optionalList .parenL inputValue .parenR
  expect .colon
  let type ← typeRef
  let _ ← directives true
  return ⟨named, described, arguments, type⟩

def reservedValues : List String := ["true", "false", "null"]

def enumValue : Rule Name := do
  let _ ← description
  let found ← current
  if (found.value?.map reservedValues.contains).getD false then
    fail (.reservedEnumValue found)
  let named ← name
  let _ ← directives true
  return named

def interfaces : Rule (List Name) := do
  if ← skipKeyword "implements" then separated .amp name else return []

end

section

/-! Type definitions and their extensions have the same parts. -/

def kindKeyword : TypeKind → String
  | .object => "type"
  | .input => "input"
  | .interface => "interface"
  | .scalar => "scalar"
  | .enum => "enum"
  | .union => "union"

def kindOfKeyword (word : String) : Option TypeKind :=
  [.object, .input, .interface, .scalar, .enum, .union].find? fun kind => kindKeyword kind = word

/-- What follows the name, and whether there were directives. -/
def typeBody : TypeKind → Rule (TypeBody × Bool)
  | .object => do
      let interfaces ← interfaces
      let directed ← directives true
      let fields ← optionalList .braceL field .braceR
      return (.object interfaces fields, directed)
  | .interface => do
      let interfaces ← interfaces
      let directed ← directives true
      let fields ← optionalList .braceL field .braceR
      return (.interface interfaces fields, directed)
  | .input => do
      let directed ← directives true
      let fields ← optionalList .braceL inputValue .braceR
      return (.input fields, directed)
  | .scalar => do
      let directed ← directives true
      return (.scalar, directed)
  | .enum => do
      let directed ← directives true
      let values ← optionalList .braceL enumValue .braceR
      return (.enum values, directed)
  | .union => do
      let directed ← directives true
      let members ← if ← skip .equals then separated .pipe name else pure []
      return (.union members, directed)

def isEmptyBody : TypeBody → Bool
  | .object interfaces fields => interfaces.isEmpty && fields.isEmpty
  | .interface interfaces fields => interfaces.isEmpty && fields.isEmpty
  | .input fields => fields.isEmpty
  | .scalar => true
  | .enum values => values.isEmpty
  | .union members => members.isEmpty

def typeDefinition (kind : TypeKind) : Rule Definition := do
  let described ← description
  keyword (kindKeyword kind)
  let named ← name
  let (body, _) ← typeBody kind
  return .type ⟨named, described, body⟩

/-- An extension has to add something. -/
def typeExtension (kind : TypeKind) : Rule Definition := do
  keyword "extend"
  keyword (kindKeyword kind)
  let named ← name
  let (body, directed) ← typeBody kind
  if !directed && isEmptyBody body then unexpected
  return .typeExtension kind named

end

section

/-! Schema blocks and directive definitions. -/

def rootType : Rule (Operation × Name) := do
  let operation ← operationType
  expect .colon
  let named ← name
  return (operation, named)

def schemaDefinition : Rule Definition := do
  let described ← description
  keyword "schema"
  let _ ← directives true
  let roots ← bracketed .braceL rootType .braceR
  return .schema described roots

def schemaExtension : Rule Definition := do
  keyword "extend"
  keyword "schema"
  let directed ← directives true
  let roots ← optionalList .braceL rootType .braceR
  if !directed && roots.isEmpty then unexpected
  return .schemaExtension

def directiveLocations : List String :=
  ["QUERY", "MUTATION", "SUBSCRIPTION", "FIELD", "FRAGMENT_DEFINITION", "FRAGMENT_SPREAD",
   "INLINE_FRAGMENT", "VARIABLE_DEFINITION", "SCHEMA", "SCALAR", "OBJECT", "FIELD_DEFINITION",
   "ARGUMENT_DEFINITION", "INTERFACE", "UNION", "ENUM", "ENUM_VALUE", "INPUT_OBJECT",
   "INPUT_FIELD_DEFINITION"]

def directiveLocation : Rule Unit := do
  let start ← position
  let word ← name
  if !directiveLocations.contains word.text then failAt start (.unexpected (.name word))

def directiveDefinition : Rule Definition := do
  let described ← description
  keyword "directive"
  expect .at
  let named ← name
  let _ ← optionalList .parenL inputValue .parenR
  let _ ← skipKeyword "repeatable"
  keyword "on"
  let _ ← separated .pipe directiveLocation
  return .directive described named

end

section

/-! A definition is chosen by its keyword, which stands after its description. -/

def isDescription : Lexeme → Bool
  | .string _ => true
  | .blockString _ => true
  | _ => false

def definitionOfKeyword : String → Option (Rule Definition)
  | "schema" => schemaDefinition
  | "directive" => directiveDefinition
  | "query" => operation
  | "mutation" => operation
  | "subscription" => operation
  | "fragment" => fragment
  | word => (kindOfKeyword word).map typeDefinition

def extension : Rule Definition := do
  let (found, place) ← lookahead
  let extended : Option (Rule Definition) :=
    match found with
    | .name word =>
        if word.text = "schema" then schemaExtension
        else (kindOfKeyword word.text).map typeExtension
    | _ => none
  match extended with
  | some rule => rule
  | none => failAt place (.unexpected found)

def shorthandQuery : Rule Definition := do
  selectionSet
  return .operation none none

def definition : Rule Definition := do
  let first ← current
  if first = .punctuator .braceL then shorthandQuery
  else
    let described := isDescription first
    let (found, place) ← if described then lookahead else pure (first, ← position)
    match found with
    | .name word =>
        match definitionOfKeyword word.text with
        | some rule => rule
        | none =>
            if described then fail .strayDescription
            else if word.text = "extend" then extension
            else unexpected
    | _ =>
        if described && found = .punctuator .braceL then fail .describedShorthand
        else failAt place (.unexpected found)

def document : Rule Document :=
  nested fun more => do
    let first ← definition
    match ← current with
    | .finish => return [first]
    | _ => return first :: (← more)

end

end SchemaClasses.Sdl.Grammar
