import SchemaClasses.Literal
import SchemaClasses.Output.Basic

/-!
The text of a module. A module without classes has no text at all. Classes are
divided by a blank line, and an empty description or root name is left out.
-/

namespace SchemaClasses.Output

def present (text : Option String) : Option String :=
  text.filter (!·.isEmpty)

def docstringText (description : Option String) : String :=
  match present description with
  | none => ""
  | some text => "  '''" ++ Literal.docstring text ++ "'''\n"

def metaLine (entry : String × List String) : String :=
  "    " ++ entry.1 ++ " = " ++ Literal.tuple entry.2 ++ "\n"

/-- A blank line parts the meta entries from attributes after them. -/
def metaText (entries : Entries (List String)) (attributes : List Attribute) : String :=
  if entries.isEmpty then ""
  else
    "  class Meta:\n" ++ String.join (entries.map metaLine) ++
      (if attributes.isEmpty then "" else "\n")

def Attribute.render (assignment : Attribute) : String :=
  "  " ++ assignment.name ++ " = " ++ assignment.value ++ "\n"

def ClassDeclaration.render (declaration : ClassDeclaration) : String :=
  "class " ++ declaration.name ++ "(" ++ declaration.base ++ "):\n" ++
    docstringText declaration.description ++
    metaText declaration.metaEntries declaration.attributes ++
    String.join (declaration.attributes.map Attribute.render) ++
    (if declaration.isEmpty then "  pass\n" else "")

def rootText (keyword : String) (type : Option String) : String :=
  match present type with
  | none => ""
  | some name => ", " ++ keyword ++ "=" ++ name

def Wiring.render (wiring : Wiring) : String :=
  "\nschema = Schema(query=" ++ wiring.query ++ rootText "mutation" wiring.mutation ++
    rootText "subscription" wiring.subscription ++ ")\n"

def importText (framework : String) (symbols : List String) : String :=
  "from " ++ framework ++ " import " ++ ", ".intercalate symbols ++ "\n\n"

def ClassModule.render (document : ClassModule) : String :=
  if document.classes.isEmpty then ""
  else
    importText document.framework document.imports ++
      "\n".intercalate (document.classes.map ClassDeclaration.render) ++
      (document.schema.map Wiring.render).getD ""

end SchemaClasses.Output
