import SchemaClasses.Text.Letter
import SchemaClasses.Text.Lines

/-!
Letter case of names. A schema name becomes an attribute name in snake case, and
an attribute name is served to clients in camel case.
-/

namespace SchemaClasses.Naming

open Text

/-- An underscore goes before each capital that follows a word character. Pairs
are taken from the left and do not overlap, so a run of capitals is split at
every second one. -/
def markCapitals : List Char → List Char
  | before :: capital :: rest =>
      if isWord before && isCapital capital then
        before :: '_' :: capital :: markCapitals rest
      else before :: markCapitals (capital :: rest)
  | short => short

def snakeCase (name : String) : String :=
  String.ofList ((markCapitals name.toList).map lower)

/-- An empty component, from a doubled or trailing underscore, stands for one
literal underscore. -/
def camelComponent : List Char → List Char
  | [] => ['_']
  | component => capitalize component

def camelChars (name : List Char) : List Char :=
  match splitAtChar '_' name with
  | [] => []
  | first :: others => first ++ others.flatMap camelComponent

def camelCase (name : String) : String :=
  String.ofList (camelChars name.toList)

def hasUnderscore (name : String) : Bool :=
  name.toList.contains '_'

end SchemaClasses.Naming
