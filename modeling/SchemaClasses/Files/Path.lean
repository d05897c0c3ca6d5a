import SchemaClasses.Text.Lines

/-!
Paths as lists of components, from the top of a file tree.
-/

namespace SchemaClasses.Files

abbrev Path := List String

namespace Path

def components (text : String) : List String :=
  (Text.splitAtChar '/' text.toList).map String.ofList

def ofText (text : String) : Path :=
  (components text).filter (!·.isEmpty)

def text (path : Path) : String :=
  "/".intercalate path

def isAbsolute (text : String) : Bool :=
  text.toList.head? = some '/'

/-- Where a relative path starts from. -/
def origin (start : Path) (text : String) : Path :=
  if isAbsolute text then [] else start

def step (path : Path) (component : String) : Path :=
  if component = "" || component = "." then path
  else if component = ".." then path.dropLast
  else path ++ [component]

/-- The path that a text stands for, whether or not anything is there. -/
def resolve (start : Path) (text : String) : Path :=
  (components text).foldl step (origin start text)

end Path

end SchemaClasses.Files
