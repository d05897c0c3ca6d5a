import SchemaClasses.Command.Run

/-!
The program. It looks at the files that the command line names, lets the command work
on what it found, and carries out what the command decided.
-/

namespace SchemaClasses.Program

open Files Command

section

/-! What is on the disk. Only texts that a command can use are read. -/

def diskText (path : Path) : String :=
  "/" ++ Path.text path

/-- The paths passed on the way from one path through further components. -/
def trail : Path → List String → List Path
  | path, [] => [path]
  | path, component :: rest => path :: trail (Path.step path component) rest

def joinTrees (left right : FileTree) : FileTree :=
  ⟨left.files ++ right.files, left.folders ++ right.folders⟩

def readFile (path : Path) : IO FileTree := do
  let text ← IO.FS.readFile (diskText path)
  return { files := [(path, text)] }

/-- The entry itself, without what a folder holds. -/
def readEntry (path : Path) : IO FileTree := do
  let found := (← IO.currentDir) / diskText path
  if ← found.isDir then return { folders := [path] }
  else if ← found.pathExists then
    try readFile path catch _ => return { files := [(path, "")] }
  else return {}

def isWanted (path : Path) : Bool :=
  isSchemaFile path || path.getLast? = some templateFile

partial def readFolder (path : Path) : IO FileTree := do
  let found := (← IO.currentDir) / diskText path
  if !(← found.isDir) then
    return ← if isWanted path then readFile path else pure { files := [(path, "")] }
  let entries ← found.readDir
  let mut tree : FileTree := { folders := [path] }
  for entry in entries do
    tree := joinTrees tree (← readFolder (path ++ [entry.fileName]))
  return tree

/-- What stands at a path given on the command line, and at all paths on the way. -/
def readPlace (start : Path) (text : String) : IO FileTree := do
  let passed := trail (Path.origin start text) (Path.components text)
  let mut tree : FileTree := {}
  for path in passed do
    tree := joinTrees tree (← readEntry path)
  match tree.locate start text with
  | none => return tree
  | some path =>
      if tree.isFolder path then return joinTrees tree (← readFolder path) else return tree

end

/-- The paths named by the options of a command line. -/
def namedPaths (arguments : List String) : List String :=
  match readArguments optionSpecs true (arguments.drop 1) with
  | .error _ => []
  | .ok parsed =>
      [Key.schema, Key.templateDir].filterMap (valueOf? parsed.given)

def outputPath (arguments : List String) : String :=
  match readArguments optionSpecs true (arguments.drop 1) with
  | .error _ => "gen.py"
  | .ok parsed => (valueOf? parsed.given .output).getD "gen.py"

def writeChange (path text : String) : IO Unit := do
  let target := Path.ofText path
  IO.FS.createDirAll (diskText target.dropLast)
  IO.FS.writeFile (diskText target) text

def escapeMessage : Escape → String
  | .write .isFolder => "the output path is a directory"
  | .write .parentIsFile => "the output directory is a file"
  | .write .notAFolder => "the output path leads through a file"
  | .nullCharacter => Failure.message .nullCharacter

def program (arguments : List String) : IO UInt32 := do
  let here ← IO.currentDir
  let start := Path.ofText here.toString
  let mut tree : FileTree := {}
  for text in namedPaths arguments do
    tree := joinTrees tree (← readPlace start text)
  let output := Path.resolve start (outputPath arguments)
  for path in trail [] output do
    tree := joinTrees tree (← readEntry path)
  let outcome := run { tree, start } arguments
  for (path, text) in tree.changes outcome.tree do
    writeChange path text
  IO.print outcome.stdout
  IO.eprint outcome.stderr
  if let some escaped := outcome.escaped then
    IO.eprintln ("Error: " ++ escapeMessage escaped)
  return UInt32.ofNat outcome.exitCode

end SchemaClasses.Program

def main (arguments : List String) : IO UInt32 :=
  SchemaClasses.Program.program arguments
