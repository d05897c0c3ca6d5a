import SchemaClasses.Sdl.Fault

/-!
Numbers of the schema language. Each part is measured by how many characters it
takes. A number may not run into a point, a letter or an underscore.
-/

namespace SchemaClasses.Sdl.Numeral

open Schema

def digits (text : List Char) (position : Position) : Except Fault Nat :=
  match text with
  | [] => .error ⟨.expectedDigit none, position⟩
  | c :: _ =>
      if c.isDigit then .ok (text.takeWhile Char.isDigit).length
      else .error ⟨.expectedDigit (some c), position⟩

/-- A zero stands alone. -/
def whole (text : List Char) (position : Position) : Except Fault Nat :=
  match text with
  | ['0'] => .ok 1
  | '0' :: c :: _ =>
      if c.isDigit then .error ⟨.digitAfterZero c, position.right 1⟩ else .ok 1
  | _ => digits text position

def fraction (text : List Char) (position : Position) : Except Fault Nat :=
  match text with
  | '.' :: rest => (digits rest (position.right 1)).map (· + 1)
  | _ => .ok 0

def signedDigits (text : List Char) (position : Position) : Except Fault Nat :=
  match text with
  | '+' :: rest => (digits rest (position.right 1)).map (· + 1)
  | '-' :: rest => (digits rest (position.right 1)).map (· + 1)
  | _ => digits text position

def exponent (text : List Char) (position : Position) : Except Fault Nat :=
  match text with
  | 'e' :: rest => (signedDigits rest (position.right 1)).map (· + 1)
  | 'E' :: rest => (signedDigits rest (position.right 1)).map (· + 1)
  | _ => .ok 0

def ending (text : List Char) (position : Position) : Except Fault Unit :=
  match text with
  | [] => .ok ()
  | c :: _ =>
      if c = '.' || isNameStart c then .error ⟨.expectedDigit (some c), position⟩ else .ok ()

/-- The number at the head of a text, and how many characters it takes. -/
def read (text : List Char) (position : Position) : Except Fault (Lexeme × Nat) := do
  let signSize := if text.head? = some '-' then 1 else 0
  let wholeSize ← whole (text.drop signSize) (position.right signSize)
  let wholeEnd := signSize + wholeSize
  let fractionSize ← fraction (text.drop wholeEnd) (position.right wholeEnd)
  let fractionEnd := wholeEnd + fractionSize
  let exponentSize ← exponent (text.drop fractionEnd) (position.right fractionEnd)
  let size := fractionEnd + exponentSize
  ending (text.drop size) (position.right size)
  let spelling := String.ofList (text.take size)
  return (if fractionSize + exponentSize = 0 then .int spelling else .float spelling, size)

end SchemaClasses.Sdl.Numeral
