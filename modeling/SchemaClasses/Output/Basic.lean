import SchemaClasses.Entries

/-!
A module of classes before it is written out. The values of attributes are texts of
expressions.
-/

namespace SchemaClasses.Output

structure Attribute where
  name : String
  value : String
  deriving DecidableEq, Repr

structure ClassDeclaration where
  name : String
  base : String
  description : Option String := none
  /-- Tuples of names under their keys. -/
  metaEntries : Entries (List String) := []
  attributes : List Attribute := []
  deriving DecidableEq, Repr

/-- Whether the body needs a `pass` statement. -/
def ClassDeclaration.isEmpty (declaration : ClassDeclaration) : Bool :=
  declaration.metaEntries.isEmpty && declaration.attributes.isEmpty

/-- The root operation types named by the closing `Schema(...)` statement. -/
structure Wiring where
  query : String
  mutation : Option String := none
  subscription : Option String := none
  deriving DecidableEq, Repr

structure ClassModule where
  framework : String
  imports : List String
  classes : List ClassDeclaration
  schema : Option Wiring
  deriving DecidableEq, Repr

end SchemaClasses.Output
