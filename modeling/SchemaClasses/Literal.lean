import SchemaClasses.Entries

/-!
Literals of the generated module: quoted text, docstrings, tuples and mappings.
-/

namespace SchemaClasses.Literal

section

/-! Quoted text stands on one line between single quotes. -/

def escapeChar (c : Char) : List Char :=
  if c = '\\' then ['\\', '\\']
  else if c = '\x27' then ['\\', '\x27']
  else if c = '\r' then ['\\', 'r']
  else if c = '\n' then ['\\', 'n']
  else [c]

def quoted (text : String) : String :=
  String.ofList ('\x27' :: text.toList.flatMap escapeChar ++ ['\x27'])

end

section

/-! A docstring stands between triple quotes and keeps its line breaks. Backslashes
are doubled and runs of three quotes are escaped from the left; a quote at the end is
kept away from the closing ones by a space. -/

def escapeDocstring : List Char → List Char
  | [] => []
  | '\x27' :: '\x27' :: '\x27' :: rest =>
      '\\' :: '\x27' :: '\\' :: '\x27' :: '\\' :: '\x27' :: escapeDocstring rest
  | '\\' :: rest => '\\' :: '\\' :: escapeDocstring rest
  | c :: rest => c :: escapeDocstring rest

def padQuote (text : List Char) : List Char :=
  if text.getLast? = some '\x27' then text ++ [' '] else text

def docstring (text : String) : String :=
  String.ofList (padQuote (escapeDocstring text.toList))

end

section

/-! Names in a tuple and expressions in a mapping are written as they are. A tuple
of one name keeps a comma. -/

def tuple : List String → String
  | [name] => "(" ++ name ++ ", )"
  | names => "(" ++ ", ".intercalate names ++ ")"

def mapping (entries : Entries String) : String :=
  "\x7b" ++ ", ".intercalate (entries.map fun entry => quoted entry.1 ++ ": " ++ entry.2) ++ "\x7d"

end

end SchemaClasses.Literal
