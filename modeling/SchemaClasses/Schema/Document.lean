import SchemaClasses.Schema.TypeExpr

/-!
Schema documents. Default values, directives and the bodies of operations have no
bearing on the generated classes, so they are recognised and not kept. An extension
keeps only what it extends.
-/

namespace SchemaClasses.Schema

/-- An argument of a field, or a field of an input type. -/
structure InputValue where
  name : Name
  description : Option String
  type : TypeRef
  deriving DecidableEq, Repr

structure Field where
  name : Name
  description : Option String
  arguments : List InputValue
  type : TypeRef
  deriving DecidableEq, Repr

inductive TypeKind where
  | object | input | interface | scalar | enum | union
  deriving DecidableEq, Repr

inductive TypeBody where
  | object (interfaces : List Name) (fields : List Field)
  | input (fields : List InputValue)
  | interface (interfaces : List Name) (fields : List Field)
  | scalar
  | enum (values : List Name)
  | union (members : List Name)
  deriving DecidableEq, Repr

def TypeBody.kind : TypeBody → TypeKind
  | .object _ _ => .object
  | .input _ => .input
  | .interface _ _ => .interface
  | .scalar => .scalar
  | .enum _ => .enum
  | .union _ => .union

structure TypeDefinition where
  name : Name
  description : Option String
  body : TypeBody
  deriving DecidableEq, Repr

inductive Operation where
  | query | mutation | subscription
  deriving DecidableEq, Repr

inductive Definition where
  | schema (description : Option String) (roots : List (Operation × Name))
  | type (definition : TypeDefinition)
  | directive (description : Option String) (name : Name)
  | operation (description : Option String) (name : Option Name)
  | fragment (description : Option String) (name : Name)
  | schemaExtension
  | typeExtension (kind : TypeKind) (name : Name)
  deriving DecidableEq, Repr

abbrev Document := List Definition

def Definition.name : Definition → Option Name
  | .schema _ _ => none
  | .type definition => some definition.name
  | .directive _ name => some name
  | .operation _ name => name
  | .fragment _ name => some name
  | .schemaExtension => none
  | .typeExtension _ name => some name

def Definition.description : Definition → Option String
  | .schema description _ => description
  | .type definition => definition.description
  | .directive description _ => description
  | .operation description _ => description
  | .fragment description _ => description
  | .schemaExtension => none
  | .typeExtension _ _ => none

end SchemaClasses.Schema
