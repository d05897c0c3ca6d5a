import SchemaClasses.Schema.Name

/-!
Type expressions: list and non-null wrappers around a leaf. In a schema the leaf
is the name of a type. Callers that build type expressions themselves may put
something else at the leaf, which the constructions then refuse.
-/

namespace SchemaClasses.Schema

inductive TypeExpr (Leaf : Type) where
  | leaf (value : Leaf)
  | list (item : TypeExpr Leaf)
  | nonNull (item : TypeExpr Leaf)
  deriving DecidableEq, Repr

def TypeExpr.map {A B : Type} (f : A → B) : TypeExpr A → TypeExpr B
  | .leaf value => .leaf (f value)
  | .list item => .list (item.map f)
  | .nonNull item => .nonNull (item.map f)

def TypeExpr.innermost {Leaf : Type} : TypeExpr Leaf → Leaf
  | .leaf value => value
  | .list item => item.innermost
  | .nonNull item => item.innermost

/-- The type of a field or argument as written in a schema. -/
abbrev TypeRef := TypeExpr Name

inductive Leaf where
  | named (name : String)
  /-- Something that is not a type, by the name of its kind. -/
  | foreign (kind : String)
  deriving DecidableEq, Repr

abbrev TypeTree := TypeExpr Leaf

def TypeRef.tree (type : TypeRef) : TypeTree :=
  TypeExpr.map (fun name => .named name.text) type

end SchemaClasses.Schema
