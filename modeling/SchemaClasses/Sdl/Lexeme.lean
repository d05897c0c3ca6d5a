import SchemaClasses.Schema.Name

/-!
Lexemes of the schema language and how messages show them. A string is shown by its
value, after escapes are read and common indentation is removed.
-/

namespace SchemaClasses.Sdl

open Schema

inductive Punctuator where
  | bang | dollar | amp | parenL | parenR | spread | colon | equals | at | bracketL | bracketR
  | braceL | pipe | braceR
  deriving DecidableEq, Repr

def Punctuator.text : Punctuator → String
  | .bang => "!"
  | .dollar => "$"
  | .amp => "&"
  | .parenL => "("
  | .parenR => ")"
  | .spread => "..."
  | .colon => ":"
  | .equals => "="
  | .at => "@"
  | .bracketL => "["
  | .bracketR => "]"
  | .braceL => "\x7b"
  | .pipe => "|"
  | .braceR => "\x7d"

/-- The punctuators of a single character. -/
def Punctuator.ofChar? : Char → Option Punctuator
  | '!' => some .bang
  | '$' => some .dollar
  | '&' => some .amp
  | '(' => some .parenL
  | ')' => some .parenR
  | ':' => some .colon
  | '=' => some .equals
  | '@' => some .at
  | '[' => some .bracketL
  | ']' => some .bracketR
  | '\x7b' => some .braceL
  | '|' => some .pipe
  | '\x7d' => some .braceR
  | _ => none

inductive Lexeme where
  | punctuator (mark : Punctuator)
  | name (word : Name)
  | int (text : String)
  | float (text : String)
  | string (value : String)
  | blockString (value : String)
  | finish
  deriving DecidableEq, Repr

/-- The text carried by a lexeme, other than by a punctuator. -/
def Lexeme.value? : Lexeme → Option String
  | .punctuator _ => none
  | .name word => some word.text
  | .int text => some text
  | .float text => some text
  | .string value => some value
  | .blockString value => some value
  | .finish => none

def Lexeme.kind : Lexeme → String
  | .punctuator mark => "'" ++ mark.text ++ "'"
  | .name _ => "Name"
  | .int _ => "Int"
  | .float _ => "Float"
  | .string _ => "String"
  | .blockString _ => "BlockString"
  | .finish => "<EOF>"

def Lexeme.shown (lexeme : Lexeme) : String :=
  match lexeme.value? with
  | none => lexeme.kind
  | some value => lexeme.kind ++ " '" ++ value ++ "'"

end SchemaClasses.Sdl
