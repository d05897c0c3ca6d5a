import SchemaClasses.Build.Recorded

/-!
Types as constructor expressions. Wrappers become calls, and the leaf of a bare
expression stands for itself. A declaration hands keywords to its outermost call, for
which a user-defined type is put in a container.
-/

namespace SchemaClasses.Build

open Schema

def builtinScalars : List String := ["String", "Float", "Int", "Boolean", "ID"]

def isBuiltinScalar (name : String) : Bool :=
  builtinScalars.contains name

def resolveType : TypeTree → Recorded String
  | .nonNull item => do
      Recorded.uses "NonNull"
      return "NonNull(" ++ (← resolveType item) ++ ")"
  | .list item => do
      Recorded.uses "List"
      return "List(" ++ (← resolveType item) ++ ")"
  | .leaf (.named name) => do
      if isBuiltinScalar name then Recorded.uses name
      return name
  | .leaf (.foreign kind) => Recorded.refuse (.malformedType kind)

/-- Keywords after a positional argument. -/
def trailing (keywords : String) : String :=
  if keywords.isEmpty then "" else ", " ++ keywords

def declareType (type : TypeTree) (keywords container : String) : Recorded String :=
  match type with
  | .nonNull item => do
      Recorded.uses "NonNull"
      return "NonNull(" ++ (← resolveType item) ++ trailing keywords ++ ")"
  | .list item => do
      Recorded.uses "List"
      return "List(" ++ (← resolveType item) ++ trailing keywords ++ ")"
  | .leaf (.named name) =>
      if isBuiltinScalar name then do
        Recorded.uses name
        return name ++ "(" ++ keywords ++ ")"
      else do
        Recorded.uses container
        return container ++ "(" ++ name ++ trailing keywords ++ ")"
  | .leaf (.foreign kind) => Recorded.refuse (.malformedType kind)

def leafName : Leaf → Except Refusal String
  | .named name => .ok name
  | .foreign kind => .error (.malformedType kind)

def namedType (type : TypeTree) : Except Refusal String :=
  leafName type.innermost

end SchemaClasses.Build
