/-!
Settings of a generation run.
-/

namespace SchemaClasses.Build

structure Settings where
  /-- The module named in the import line. -/
  framework : String := "graphene"
  /-- Whether the module ends in a `Schema(...)` statement. -/
  wiring : Bool := true
  /-- Whether descriptions reach docstrings and `description` keywords. -/
  descriptions : Bool := true
  /-- Whether arguments of other than built-in scalar types are refused. -/
  scalarArgumentsOnly : Bool := false
  /-- The file name used where none is given. -/
  outputFile : String := "gen.py"
  deriving DecidableEq, Repr

/-- A new value for one of the settings. -/
inductive Setting where
  | framework (name : String)
  | wiring (on : Bool)
  | descriptions (on : Bool)
  | scalarArgumentsOnly (on : Bool)
  | outputFile (name : String)
  deriving DecidableEq, Repr

def Settings.change (settings : Settings) : Setting → Settings
  | .framework name => { settings with framework := name }
  | .wiring on => { settings with wiring := on }
  | .descriptions on => { settings with descriptions := on }
  | .scalarArgumentsOnly on => { settings with scalarArgumentsOnly := on }
  | .outputFile name => { settings with outputFile := name }

/-- The description to write, if descriptions are wanted and it is not empty. -/
def Settings.described (settings : Settings) (description : Option String) : Option String :=
  if settings.descriptions then description.filter (!·.isEmpty) else none

end SchemaClasses.Build
