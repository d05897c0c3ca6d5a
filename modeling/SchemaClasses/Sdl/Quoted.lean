import SchemaClasses.Sdl.Fault

/-!
Strings in double quotes. They end on the line on which they start. Escapes name a
character by a letter, by four hexadecimal digits, by a pair of such escapes that
together make one character, or by a number of digits in braces.
-/

namespace SchemaClasses.Sdl.Quoted

section

/-! Hexadecimal code points. -/

def hexValue (c : Char) : Option Nat :=
  if '0' ≤ c && c ≤ '9' then some (c.toNat - 48)
  else if 'a' ≤ c && c ≤ 'f' then some (c.toNat - 87)
  else if 'A' ≤ c && c ≤ 'F' then some (c.toNat - 55)
  else none

/-- The number in the first four characters, if they are hexadecimal digits. -/
def fourDigits : List Char → Option Nat
  | a :: b :: c :: d :: _ => do
      let a ← hexValue a
      let b ← hexValue b
      let c ← hexValue c
      let d ← hexValue d
      return ((a * 16 + b) * 16 + c) * 16 + d
  | _ => none

def isScalarValue (point : Nat) : Bool :=
  point ≤ 0xD7FF || (0xE000 ≤ point && point ≤ 0x10FFFF)

def isHighHalf (point : Nat) : Bool :=
  0xD800 ≤ point && point ≤ 0xDBFF

def isLowHalf (point : Nat) : Bool :=
  0xDC00 ≤ point && point ≤ 0xDFFF

def joinHalves (high low : Nat) : Char :=
  Char.ofNat (0x10000 + (high - 0xD800) * 0x400 + (low - 0xDC00))

end

section

/-! Escapes. The text starts after the backslash; sizes do not count it either. -/

def letterEscape : Char → Option Char
  | '"' => some '"'
  | '\\' => some '\\'
  | '/' => some '/'
  | 'b' => some '\x08'
  | 'f' => some '\x0c'
  | 'n' => some '\n'
  | 'r' => some '\r'
  | 't' => some '\t'
  | _ => none

/-- The escape of a high half must be followed by the escape of a low half. -/
def lowHalf (text : List Char) : Option Nat :=
  match text with
  | '\\' :: 'u' :: digits => (fourDigits digits).filter isLowHalf
  | _ => none

def fixedEscape (text : List Char) (position : Position) : Except Fault (Char × Nat) :=
  let refused : Except Fault (Char × Nat) :=
    .error ⟨.unknownUnicodeEscape ('\\' :: text.take 5), position⟩
  match fourDigits (text.drop 1) with
  | none => refused
  | some point =>
      if isScalarValue point then .ok (Char.ofNat point, 5)
      else if isHighHalf point then
        match lowHalf (text.drop 5) with
        | some low => .ok (joinHalves point low, 11)
        | none => refused
      else refused

/-- Reads digits up to the closing brace. `size` counts the characters before, and an
error carries how many characters the message shows. With the backslash the escape has
at most twelve characters, and at least one digit. -/
def bracedDigits : List Char → Nat → Nat → Except Nat (Char × Nat)
  | [], size, _ => .error size
  | c :: rest, size, point =>
      if 11 ≤ size then .error size
      else if c = '\x7d' then
        if 3 ≤ size && isScalarValue point then .ok (Char.ofNat point, size + 1)
        else .error (size + 1)
      else match hexValue c with
        | some digit => bracedDigits rest (size + 1) (point * 16 + digit)
        | none => .error (size + 1)

/-- The character of an escape, and how many characters the escape takes. -/
def escape (text : List Char) (position : Position) : Except Fault (Char × Nat) :=
  match text with
  | [] => .error ⟨.unknownEscape ['\\'], position⟩
  | 'u' :: '\x7b' :: digits =>
      (bracedDigits digits 2 0).mapError fun size =>
        ⟨.unknownUnicodeEscape ('\\' :: text.take size), position⟩
  | 'u' :: _ => fixedEscape text position
  | c :: _ =>
      match letterEscape c with
      | some meaning => .ok (meaning, 1)
      | none => .error ⟨.unknownEscape ['\\', c], position⟩

end

/-- The value of a string, and how many characters it takes up to and with its closing
quote. The text starts after the opening quote. -/
def read (text : List Char) (position : Position) : Except Fault (List Char × Nat) :=
  match text with
  | [] => .error ⟨.unterminatedString, position⟩
  | c :: rest =>
      if c = '"' then .ok ([], 1)
      else if c = '\\' then do
        let (meaning, size) ← escape rest position
        let (value, more) ← read (rest.drop size) (position.right (size + 1))
        return (meaning :: value, size + 1 + more)
      else if c = '\n' || c = '\r' then .error ⟨.unterminatedString, position⟩
      else do
        let (value, more) ← read rest (position.right 1)
        return (c :: value, more + 1)
termination_by text.length

end SchemaClasses.Sdl.Quoted
