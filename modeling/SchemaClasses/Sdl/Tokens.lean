import SchemaClasses.Sdl.BlockText
import SchemaClasses.Sdl.Numeral
import SchemaClasses.Sdl.Quoted

/-!
The tokens of a schema text. A fault ends the stream where it occurs, so a reader
meets it only when it gets that far.
-/

namespace SchemaClasses.Sdl

open Schema

inductive Tokens where
  | finish (position : Position)
  | fault (found : Fault)
  | token (lexeme : Lexeme) (position : Position) (rest : Tokens)
  deriving DecidableEq, Repr

namespace Tokens

def length : Tokens → Nat
  | .finish _ => 0
  | .fault _ => 0
  | .token _ _ rest => rest.length + 1

def lexeme : Tokens → Lexeme
  | .token lexeme _ _ => lexeme
  | _ => .finish

def position : Tokens → Position
  | .finish position => position
  | .fault found => found.position
  | .token _ position _ => position

end Tokens

section

/-! Commas and byte order marks are ignored like white space, and comments run to
the end of their line. -/

def isIgnored (c : Char) : Bool :=
  c = ' ' || c = '\t' || c = ',' || c = '\ufeff'

def isLineEnd (c : Char) : Bool :=
  c = '\n' || c = '\r'

def commentSize (text : List Char) : Nat :=
  (text.takeWhile (!isLineEnd ·)).length

/-- A line feed right after a carriage return belongs to it. -/
def lineFeedSize (text : List Char) : Nat :=
  if text.head? = some '\n' then 1 else 0

def strayCharacter (c : Char) (position : Position) : Fault :=
  ⟨if c = '\x27' then .singleQuote else .unexpectedCharacter c, position⟩

def tokensAt (text : List Char) (position : Position) : Tokens :=
  match text with
  | [] => .finish position
  | c :: rest =>
      if isIgnored c then tokensAt rest (position.right 1)
      else if c = '\n' then tokensAt rest position.nextLine
      else if c = '\r' then
        tokensAt (rest.drop (lineFeedSize rest)) position.nextLine
      else if c = '#' then
        tokensAt (rest.drop (commentSize rest)) (position.right (commentSize rest + 1))
      else if c = '"' then
        if rest.take 2 = ['"', '"'] then
          match BlockText.rawLines (rest.drop 2) (position.right 3) with
          | .error fault => .fault fault
          | .ok raw =>
              .token (.blockString (BlockText.value raw.lines)) position
                (tokensAt ((rest.drop 2).drop raw.size) raw.stop)
        else
          match Quoted.read rest (position.right 1) with
          | .error fault => .fault fault
          | .ok (value, size) =>
              .token (.string (String.ofList value)) position
                (tokensAt (rest.drop size) (position.right (size + 1)))
      else if c.isDigit || c = '-' then
        match Numeral.read text position with
        | .error fault => .fault fault
        | .ok (number, size) =>
            .token number position (tokensAt (rest.drop (size - 1)) (position.right size))
      else if start : isNameStart c = true then
        let size := (rest.takeWhile isNamePart).length
        .token (.name (Name.leading c rest start)) position
          (tokensAt (rest.drop size) (position.right (size + 1)))
      else if c = '.' && rest.take 2 = ['.', '.'] then
        .token (.punctuator .spread) position (tokensAt (rest.drop 2) (position.right 3))
      else match Punctuator.ofChar? c with
        | some mark => .token (.punctuator mark) position (tokensAt rest (position.right 1))
        | none => .fault (strayCharacter c position)
termination_by text.length

end

def tokens (source : String) : Tokens :=
  tokensAt source.toList Position.start

end SchemaClasses.Sdl
