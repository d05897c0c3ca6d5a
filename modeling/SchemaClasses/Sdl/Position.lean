import SchemaClasses.Text.Lines

/-!
Positions in a schema text, and the excerpt of the text around a position that is
shown with an error. Lines and columns count from one; a carriage return followed by
a line feed ends one line.
-/

namespace SchemaClasses.Sdl

open Text

structure Position where
  line : Nat
  column : Nat
  deriving DecidableEq, Repr

namespace Position

def start : Position := ⟨1, 1⟩

def right (position : Position) (count : Nat) : Position :=
  { position with column := position.column + count }

def nextLine (position : Position) : Position :=
  ⟨position.line + 1, 1⟩

end Position

section

/-! Rows of an excerpt. The labels are aligned to the right, and an empty text
leaves nothing after its label. -/

structure Row where
  label : String
  text : List Char

def Row.render (width : Nat) (row : Row) : String :=
  String.ofList (List.replicate (width - row.label.length) ' ') ++ row.label ++
    (if row.text.isEmpty then "" else " " ++ String.ofList row.text)

def renderRows (rows : List Row) : String :=
  let width := rows.foldl (fun width row => max width row.label.length) 0
  "\n".intercalate (rows.map (Row.render width))

def numbered (line : Nat) (text : List Char) : Row :=
  ⟨toString line ++ " |", text⟩

def unnumbered (text : List Char) : Row :=
  ⟨"|", text⟩

def caret (column : Nat) : Row :=
  unnumbered (List.replicate (column - 1) ' ' ++ ['^'])

end

section

/-! The line of the position stands between its neighbours. A line of more than
120 characters is shown alone, in pieces of 80. -/

/-- The pieces of a text, each of the given length but perhaps the last. -/
def pieces (length : Nat) (text : List Char) : List (List Char) :=
  (List.range ((text.length + length - 1) / length)).map fun index =>
    (text.drop (index * length)).take length

def longLineRows (position : Position) (text : List Char) : List Row :=
  let parts := pieces 80 text
  let part := position.column / 80
  (parts.take 1).map (numbered position.line) ++
    ((parts.drop 1).take part).map unnumbered ++
    [caret (position.column % 80)] ++
    ((parts.drop (part + 1)).take 1).map unnumbered

def neighbourRows (lines : List (List Char)) (position : Position) (text : List Char) : List Row :=
  let before := if position.line ≤ 1 then none else lines[position.line - 2]?
  let after := lines[position.line]?
  before.toList.map (numbered (position.line - 1)) ++
    [numbered position.line text, caret position.column] ++
    after.toList.map (numbered (position.line + 1))

def excerpt (source : String) (position : Position) : String :=
  let lines := sourceLines source.toList
  let text := lines[position.line - 1]?.getD []
  renderRows <|
    if text.length > 120 then longLineRows position text
    else neighbourRows lines position text

end

end SchemaClasses.Sdl
