import SchemaClasses.Files.Tree
import SchemaClasses.Sdl.Read
import SchemaClasses.Text.Blank

/-!
Loading schema files. A file is loaded whatever its name; of a folder, every schema
file inside it, in the order of the path texts. Blank files are skipped, and the first
file that cannot be read ends the loading.
-/

namespace SchemaClasses.Files

open Schema

def schemaExtensions : List String := [".graphql", ".graphqls", ".gql"]

def isSchemaFile (path : Path) : Bool :=
  schemaExtensions.any fun ending => ending.toList.isSuffixOf (path.getLast?.getD "").toList

structure SourceFile where
  path : Path
  text : String
  deriving DecidableEq, Repr

def SourceFile.name (file : SourceFile) : String :=
  file.path.getLast?.getD ""

/-- The text of a file as it is read, with its line ends unified. -/
def readText (text : String) : String :=
  String.ofList (Text.unifyNewlines text.toList)

def sortByPath (files : List SourceFile) : List SourceFile :=
  files.mergeSort fun left right => !(Path.text right.path < Path.text left.path)

def FileTree.schemaFilesUnder (tree : FileTree) (folder : Path) : List SourceFile :=
  sortByPath <|
    (tree.files.filter fun file => folder.isPrefixOf file.1 && isSchemaFile file.1).map fun file =>
      ⟨file.1, readText file.2⟩

def FileTree.schemaFiles (tree : FileTree) (start : Path) (text : String) : List SourceFile :=
  match tree.locate start text with
  | none => []
  | some path =>
      match tree.file? path with
      | some content => [⟨path, readText content⟩]
      | none => tree.schemaFilesUnder path

structure LoadFault where
  file : SourceFile
  fault : Sdl.Fault
  deriving DecidableEq, Repr

def LoadFault.report (loadFault : LoadFault) : String :=
  loadFault.fault.report loadFault.file.text

structure Loading where
  /-- The name of the file looked at last. -/
  currentFile : String
  outcome : Except LoadFault Document

def Loading.printed (loading : Loading) : String :=
  match loading.outcome with
  | .ok _ => ""
  | .error loadFault =>
      "Error parsing " ++ loading.currentFile ++ ": " ++ loadFault.report ++ "\n"

def loadFiles (currentFile : String) : List SourceFile → Loading
  | [] => ⟨currentFile, .ok []⟩
  | file :: rest =>
      if Text.isBlankText file.text then loadFiles file.name rest
      else match Sdl.readDocument file.text with
        | .error fault => ⟨file.name, .error ⟨file, fault⟩⟩
        | .ok definitions =>
            let loading := loadFiles file.name rest
            ⟨loading.currentFile, loading.outcome.map (definitions ++ ·)⟩

def FileTree.load (tree : FileTree) (start : Path) (text : String) : Loading :=
  loadFiles "" (tree.schemaFiles start text)

section

/-! A folder may hold a text to use in place of the rendered module. -/

def templateFile : String := "module.py.j2"

def FileTree.template? (tree : FileTree) (start : Path) (folder : String) : Option String := do
  if folder.isEmpty then none
  let path ← tree.locate start folder
  let text ← tree.file? (path ++ [templateFile])
  return readText text

end

end SchemaClasses.Files
