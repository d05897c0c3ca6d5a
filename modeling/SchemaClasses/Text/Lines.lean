/-!
Lines. Files and schema texts end a line at a line feed, a carriage return, or
the two together. A header is split at a wider set of boundaries, and a boundary
at its very end opens no further line.
-/

namespace SchemaClasses.Text

/-- The pieces between the separators; one more piece than there are separators. -/
def splitAtChar (separator : Char) : List Char → List (List Char)
  | [] => [[]]
  | c :: rest =>
      if c = separator then [] :: splitAtChar separator rest
      else match splitAtChar separator rest with
        | [] => [[c]]
        | piece :: pieces => (c :: piece) :: pieces

/-- Every line end becomes a single line feed. -/
def unifyNewlines : List Char → List Char
  | [] => []
  | '\r' :: '\n' :: rest => '\n' :: unifyNewlines rest
  | '\r' :: rest => '\n' :: unifyNewlines rest
  | c :: rest => c :: unifyNewlines rest

/-- The lines of a source text, the last one possibly empty. -/
def sourceLines (text : List Char) : List (List Char) :=
  splitAtChar '\n' (unifyNewlines text)

/-- Line feed, vertical tab, form feed, the file, group and record separators,
next line, and the line and paragraph separators. -/
def isBoundary (c : Char) : Bool :=
  c = '\n' || c = '\x0b' || c = '\x0c' || c = '\x1c' || c = '\x1d' || c = '\x1e' ||
    c = '\u0085' || c = '\u2028' || c = '\u2029'

def boundedLines : List Char → List (List Char)
  | [] => []
  | c :: rest =>
      if isBoundary c then [] :: boundedLines rest
      else match boundedLines rest with
        | [] => [[c]]
        | line :: lines => (c :: line) :: lines

/-- The lines of a text split at every boundary. -/
def allLines (text : List Char) : List (List Char) :=
  boundedLines (unifyNewlines text)

end SchemaClasses.Text
