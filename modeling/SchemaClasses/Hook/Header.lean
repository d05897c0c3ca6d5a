import SchemaClasses.Text.Blank
import SchemaClasses.Text.Lines

/-!
A comment header above the text of a module. Lines that are comments already stay as
they are.
-/

namespace SchemaClasses.Header

open Text

def isComment (line : List Char) : Bool :=
  (trimStart line).head? = some '#'

def commentLine (line : List Char) : List Char :=
  if isComment line then line
  else if line.all isBlank then ['#']
  else '#' :: ' ' :: line

def dropFinalNewlines (text : List Char) : List Char :=
  (text.reverse.dropWhile (· = '\n')).reverse

def commentLines (header : String) : List String :=
  (allLines (dropFinalNewlines header.toList)).map fun line => String.ofList (commentLine line)

/-- A header without lines adds nothing. -/
def addTo (header content : String) : String :=
  match commentLines header with
  | [] => content
  | lines => "\n".intercalate lines ++ "\n\n" ++ content

end SchemaClasses.Header
