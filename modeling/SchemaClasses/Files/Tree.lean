import SchemaClasses.Files.Path

/-!
Trees of text files. A folder is there if it is listed, or if anything is inside it.
-/

namespace SchemaClasses.Files

structure FileTree where
  files : List (Path × String) := []
  folders : List Path := []
  deriving DecidableEq, Repr

inductive Entry where
  | file (text : String)
  | folder
  deriving DecidableEq, Repr

namespace FileTree

def file? (tree : FileTree) (path : Path) : Option String :=
  List.lookup path tree.files

def isFolder (tree : FileTree) (path : Path) : Bool :=
  path.isEmpty || tree.folders.any (path.isPrefixOf ·) ||
    tree.files.any fun file => path.isPrefixOf file.1 && path != file.1

def entry? (tree : FileTree) (path : Path) : Option Entry :=
  match tree.file? path with
  | some text => some (.file text)
  | none => if tree.isFolder path then some .folder else none

section

/-! Looking a path up from component to component. Only a folder can be passed
through, be it on the way back up or for a slash at the end. -/

def walk (tree : FileTree) : Path → List String → Option Path
  | path, [] => (tree.entry? path).map fun _ => path
  | path, component :: rest =>
      if tree.isFolder path then tree.walk (Path.step path component) rest else none

def locate (tree : FileTree) (start : Path) (text : String) : Option Path :=
  tree.walk (Path.origin start text) (Path.components text)

end

section

/-! Writing. Missing folders above the file are made. -/

inductive WriteFault where
  | isFolder
  /-- The folder to write in is a file. -/
  | parentIsFile
  /-- Something further up is a file. -/
  | notAFolder
  deriving DecidableEq, Repr

def isFile (tree : FileTree) (path : Path) : Bool :=
  (tree.file? path).isSome

/-- The paths above the parent of a path. -/
def remoteAncestors (path : Path) : List Path :=
  (List.range path.dropLast.length).map path.take

def put (tree : FileTree) (path : Path) (text : String) : FileTree :=
  { tree with files := tree.files.filter (·.1 ≠ path) ++ [(path, text)] }

def write (tree : FileTree) (path : Path) (text : String) : Except WriteFault FileTree :=
  if (remoteAncestors path).any tree.isFile then .error .notAFolder
  else if tree.isFile path.dropLast then .error .parentIsFile
  else if tree.isFolder path then .error .isFolder
  else .ok (tree.put path text)

end

/-- The files that are new or have another text than before, sorted by path. -/
def changes (before after : FileTree) : List (String × String) :=
  let changed := after.files.filter fun file => before.file? file.1 ≠ some file.2
  (changed.map fun file => (Path.text file.1, file.2)).mergeSort fun left right =>
    !(right.1 < left.1)

end FileTree

end SchemaClasses.Files
