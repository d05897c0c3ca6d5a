import SchemaClasses.Build.Settings
import SchemaClasses.Build.TypeText
import SchemaClasses.Literal
import SchemaClasses.Naming.Reserved

/-!
Keywords of a field declaration. The constructor's own `name` and `description` come
first, then the arguments of the field in order. An argument that cannot be a keyword
next to them goes into one `args` mapping at the end.
-/

namespace SchemaClasses.Build

open Schema Naming

structure Keyword where
  name : String
  value : String
  deriving DecidableEq, Repr

def Keyword.render (keyword : Keyword) : String :=
  keyword.name ++ "=" ++ keyword.value

def renderKeywords (keywords : List Keyword) : String :=
  ", ".intercalate (keywords.map Keyword.render)

def descriptionKeyword (settings : Settings) (description : Option String) : List Keyword :=
  match settings.described description with
  | none => []
  | some text => [⟨"description", Literal.quoted text⟩]

def nameKeyword (name : String) : List Keyword :=
  if needsExplicitName name then [⟨"name", Literal.quoted name⟩] else []

section

/-! Arguments. -/

/-- The declaration of an argument that is passed as a keyword. -/
def argumentDeclaration (settings : Settings) (argument : InputValue) : Recorded String :=
  declareType (TypeRef.tree argument.type)
    (renderKeywords (descriptionKeyword settings argument.description)) "Argument"

/-- The declaration of an argument that goes through the `args` mapping. -/
def mappedDeclaration (settings : Settings) (argument : InputValue) : Recorded String := do
  Recorded.uses "Argument"
  let type ← resolveType (TypeRef.tree argument.type)
  return "Argument(" ++ type ++
    trailing (renderKeywords (descriptionKeyword settings argument.description)) ++ ")"

def checkArgument (settings : Settings) (field : String) (argument : InputValue) :
    Except Refusal Unit := do
  if settings.scalarArgumentsOnly then
    let type ← namedType (TypeRef.tree argument.type)
    if !isBuiltinScalar type then throw (.unsupportedArgument field argument.name.text type)

def argsKeyword (mapped : Entries String) : List Keyword :=
  if mapped.isEmpty then [] else [⟨"args", Literal.mapping mapped⟩]

/-- The keywords of the arguments, `mapped` holding what the mapping has so far. -/
def argumentKeywords (settings : Settings) (field : String) (reserved : List String) :
    List InputValue → Entries String → Recorded (List Keyword)
  | [], mapped => return argsKeyword mapped
  | argument :: rest, mapped => do
      Recorded.ofExcept (checkArgument settings field argument)
      if isColliding argument.name.text reserved then
        let value ← mappedDeclaration settings argument
        argumentKeywords settings field reserved rest
          (Entries.put mapped argument.name.text value)
      else
        let value ← argumentDeclaration settings argument
        let keywords ← argumentKeywords settings field reserved rest mapped
        return ⟨argument.name.text, value⟩ :: keywords

end

end SchemaClasses.Build
