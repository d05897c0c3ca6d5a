import SchemaClasses.Sdl.Lexeme
import SchemaClasses.Sdl.Position

/-!
Why a schema text cannot be read, and where.
-/

namespace SchemaClasses.Sdl

inductive Wanted where
  | punctuator (mark : Punctuator)
  | name
  | finish
  | keyword (word : String)
  deriving DecidableEq, Repr

def Wanted.shown : Wanted → String
  | .punctuator mark => "'" ++ mark.text ++ "'"
  | .name => "Name"
  | .finish => "<EOF>"
  | .keyword word => "'" ++ word ++ "'"

inductive Cause where
  | expected (wanted : Wanted) (found : Lexeme)
  | unexpected (found : Lexeme)
  | strayDescription
  | describedShorthand
  | variableInConstant (name : String)
  | reservedEnumValue (found : Lexeme)
  | unexpectedCharacter (character : Char)
  | singleQuote
  | unterminatedString
  | unknownEscape (shown : List Char)
  | unknownUnicodeEscape (shown : List Char)
  | digitAfterZero (digit : Char)
  | expectedDigit (found : Option Char)
  deriving DecidableEq, Repr

section

/-! A character is quoted if it is printable ASCII and otherwise shown by its
code point, in at least four hexadecimal digits. -/

def hexadecimal (number : Nat) : List Char :=
  let digits := (Nat.toDigits 16 number).map Char.toUpper
  List.replicate (4 - digits.length) '0' ++ digits

def showCharacter : Option Char → String
  | none => "<EOF>"
  | some c =>
      if ' ' ≤ c && c ≤ '~' then "'" ++ String.ofList [c] ++ "'"
      else "U+" ++ String.ofList (hexadecimal c.toNat)

end

def Cause.message : Cause → String
  | .expected wanted found => "Expected " ++ wanted.shown ++ ", found " ++ found.shown ++ "."
  | .unexpected found => "Unexpected " ++ found.shown ++ "."
  | .strayDescription => "Unexpected description, only GraphQL definitions support descriptions."
  | .describedShorthand =>
      "Unexpected description, descriptions are not supported on shorthand queries."
  | .variableInConstant name => "Unexpected variable '$" ++ name ++ "' in constant value."
  | .reservedEnumValue found =>
      found.shown ++ " is reserved and cannot be used for an enum value."
  | .unexpectedCharacter c => "Unexpected character: " ++ showCharacter (some c) ++ "."
  | .singleQuote =>
      "Unexpected single quote character ('), did you mean to use a double quote (\")?"
  | .unterminatedString => "Unterminated string."
  | .unknownEscape shown =>
      "Invalid character escape sequence: '" ++ String.ofList shown ++ "'."
  | .unknownUnicodeEscape shown =>
      "Invalid Unicode escape sequence: '" ++ String.ofList shown ++ "'."
  | .digitAfterZero digit =>
      "Invalid number, unexpected digit after 0: " ++ showCharacter (some digit) ++ "."
  | .expectedDigit found =>
      "Invalid number, expected digit but got: " ++ showCharacter found ++ "."

structure Fault where
  cause : Cause
  position : Position
  deriving DecidableEq, Repr

def Fault.message (fault : Fault) : String :=
  "Syntax Error: " ++ fault.cause.message

/-- The message, the place, and the lines around it. -/
def Fault.report (fault : Fault) (source : String) : String :=
  fault.message ++ "\n\nGraphQL request:" ++ toString fault.position.line ++ ":" ++
    toString fault.position.column ++ "\n" ++ excerpt source fault.position

end SchemaClasses.Sdl
