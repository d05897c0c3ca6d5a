import SchemaClasses.Naming.Case

/-!
Names that cannot be used as they are: the keywords of Python, and the parameters
that a field constructor keeps for itself.
-/

namespace SchemaClasses.Naming

def keywords : List String :=
  ["False", "None", "True", "and", "as", "assert", "async", "await", "break", "class",
   "continue", "def", "del", "elif", "else", "except", "finally", "for", "from", "global",
   "if", "import", "in", "is", "lambda", "nonlocal", "not", "or", "pass", "raise", "return",
   "try", "while", "with", "yield"]

def isKeyword (name : String) : Bool :=
  keywords.contains name

/-- A keyword is set apart by a trailing underscore. -/
def safeIdentifier (name : String) : String :=
  if isKeyword name then name ++ "_" else name

def attributeName (name : String) : String :=
  safeIdentifier (snakeCase name)

/-- Whether the attribute made from a name would be served under another name. A
name with an underscore is always given explicitly. -/
def needsExplicitName (name : String) : Bool :=
  hasUnderscore name || camelCase (attributeName name) != name

/-- Parameters of the field constructors other than `name` and `description`. -/
def fieldParameters : List String :=
  ["args", "resolver", "source", "deprecation_reason", "required", "default_value", "type_",
   "of_type"]

/-- Whether an argument cannot be passed as a keyword next to the reserved ones. -/
def isColliding (argument : String) (reserved : List String) : Bool :=
  reserved.contains argument || fieldParameters.contains argument || isKeyword argument

end SchemaClasses.Naming
