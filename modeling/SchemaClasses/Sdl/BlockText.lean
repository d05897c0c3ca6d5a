import SchemaClasses.Sdl.Fault

/-!
Strings in triple quotes. They may run over several lines; the indentation that all
lines but the first have in common is dropped, and so are blank lines at both ends.
-/

namespace SchemaClasses.Sdl.BlockText

section

/-! Raw lines. -/

/-- Puts characters in front of the first line. -/
def extend (characters : List Char) : List (List Char) → List (List Char)
  | [] => [characters]
  | line :: lines => (characters ++ line) :: lines

structure Raw where
  lines : List (List Char)
  /-- How many characters the string takes, with its closing quotes. -/
  size : Nat
  /-- Where it ends. -/
  stop : Position

def Raw.extend (raw : Raw) (characters : List Char) (size : Nat) : Raw :=
  { raw with lines := BlockText.extend characters raw.lines, size := raw.size + size }

def Raw.breakLine (raw : Raw) (size : Nat) : Raw :=
  { raw with lines := [] :: raw.lines, size := raw.size + size }

/-- The lines of a string whose opening quotes stand before the text. -/
def rawLines : List Char → Position → Except Fault Raw
  | [], position => .error ⟨.unterminatedString, position⟩
  | '"' :: '"' :: '"' :: _, position => .ok ⟨[[]], 3, position.right 3⟩
  | '\\' :: '"' :: '"' :: '"' :: rest, position =>
      (rawLines rest (position.right 4)).map (·.extend ['"', '"', '"'] 4)
  | '\r' :: '\n' :: rest, position => (rawLines rest position.nextLine).map (·.breakLine 2)
  | '\r' :: rest, position => (rawLines rest position.nextLine).map (·.breakLine 1)
  | '\n' :: rest, position => (rawLines rest position.nextLine).map (·.breakLine 1)
  | c :: rest, position => (rawLines rest (position.right 1)).map (·.extend [c] 1)

end

section

/-! Indentation counts spaces and tabs as one each. -/

def isIndent (c : Char) : Bool :=
  c = ' ' || c = '\t'

def indentation (line : List Char) : Nat :=
  (line.takeWhile isIndent).length

def isBlankLine (line : List Char) : Bool :=
  line.all isIndent

def commonIndentation (lines : List (List Char)) : Nat :=
  (((lines.drop 1).filter (!isBlankLine ·)).map indentation).min?.getD 0

def trimBlankLines (lines : List (List Char)) : List (List Char) :=
  ((lines.dropWhile isBlankLine).reverse.dropWhile isBlankLine).reverse

def dedent (lines : List (List Char)) : List (List Char) :=
  trimBlankLines (lines.take 1 ++ (lines.drop 1).map (·.drop (commonIndentation lines)))

def value (lines : List (List Char)) : String :=
  String.ofList (List.intercalate ['\n'] (dedent lines))

end

end SchemaClasses.Sdl.BlockText
