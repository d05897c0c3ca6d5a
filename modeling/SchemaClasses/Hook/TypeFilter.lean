import SchemaClasses.Schema.Document

/-!
Dropping type definitions by name or by kind. All other definitions are kept, and so
are extensions. An empty start or end of a name asks for nothing.
-/

namespace SchemaClasses

open Schema

structure TypeFilter where
  excludedStart : Option String := none
  excludedEnd : Option String := none
  includedStart : Option String := none
  includedEnd : Option String := none
  excludedKinds : List TypeKind := []
  deriving DecidableEq, Repr

namespace TypeFilter

section

/-! Kinds are given by name. -/

def kindNames : List (String × TypeKind) :=
  [("object", .object), ("input", .input), ("interface", .interface), ("scalar", .scalar),
   ("enum", .enum), ("union", .union)]

def kindNamed (name : String) : Option TypeKind :=
  kindNames.lookup name

/-- Names that are not the name of a kind, each once and sorted. -/
structure UnknownKinds where
  names : List String
  deriving DecidableEq, Repr

def UnknownKinds.message (unknown : UnknownKinds) : String :=
  "Unknown definition kinds: " ++ ", ".intercalate unknown.names

def sortedOnce (names : List String) : List String :=
  names.eraseDups.mergeSort fun left right => !(right < left)

def excludingKinds (filter : TypeFilter) (names : List String) : Except UnknownKinds TypeFilter :=
  match names.filter fun name => (kindNamed name).isNone with
  | [] => .ok { filter with excludedKinds := names.filterMap kindNamed }
  | unknown => .error ⟨sortedOnce unknown⟩

end

section

/-! Which definitions are kept. -/

def startsWith (name start : String) : Bool :=
  start.toList.isPrefixOf name.toList

def endsWith (name ending : String) : Bool :=
  ending.toList.isSuffixOf name.toList

/-- The text of a condition, unless it asks for nothing. -/
def asked (text : Option String) : Option String :=
  text.filter (!·.isEmpty)

def excludesName (filter : TypeFilter) (name : String) : Bool :=
  (asked filter.excludedStart).any (startsWith name) ||
    (asked filter.excludedEnd).any (endsWith name)

def includesName (filter : TypeFilter) (name : String) : Bool :=
  (asked filter.includedStart).all (startsWith name) &&
    (asked filter.includedEnd).all (endsWith name)

def keeps (filter : TypeFilter) : Definition → Bool
  | .type definition =>
      !filter.excludedKinds.contains definition.body.kind &&
        filter.includesName definition.name.text && !filter.excludesName definition.name.text
  | _ => true

def apply (filter : TypeFilter) (document : Document) : Document :=
  document.filter filter.keeps

end

end TypeFilter

end SchemaClasses
