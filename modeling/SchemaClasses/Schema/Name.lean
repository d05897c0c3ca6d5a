/-!
Names of the schema language: a letter or underscore, then letters, digits and
underscores, all of them ASCII.
-/

namespace SchemaClasses.Schema

def isNameStart (c : Char) : Bool :=
  c.isAlpha || c = '_'

def isNamePart (c : Char) : Bool :=
  c.isAlphanum || c = '_'

def spellsName : List Char → Bool
  | [] => false
  | first :: rest => isNameStart first && rest.all isNamePart

structure Name where
  text : String
  spelled : spellsName text.toList = true
  deriving DecidableEq, Repr

/-- The longest name that starts with the given character. -/
def Name.leading (first : Char) (rest : List Char) (start : isNameStart first = true) : Name where
  text := String.ofList (first :: rest.takeWhile isNamePart)
  spelled := by simp [spellsName, start]

end SchemaClasses.Schema
