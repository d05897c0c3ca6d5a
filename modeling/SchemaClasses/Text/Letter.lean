import SchemaClasses.Text.Blank

/-!
Letters, digits and case. The tables cover Latin-1 and the scripts of East Asia;
a character outside them is not a word character and has no case.
-/

namespace SchemaClasses.Text

def letterRanges : List (Nat × Nat) :=
  [(0x41, 0x5A), (0x61, 0x7A), (0xAA, 0xAA), (0xB5, 0xB5), (0xBA, 0xBA),
   (0xC0, 0xD6), (0xD8, 0xF6), (0xF8, 0xFF), (0x3005, 0x3007), (0x3031, 0x3035),
   (0x3041, 0x3096), (0x309D, 0x309F), (0x30A1, 0x30FA), (0x30FC, 0x30FF),
   (0x3105, 0x312F), (0x3131, 0x318E), (0x31F0, 0x31FF), (0x3400, 0x4DBF),
   (0x4E00, 0x9FFF), (0xAC00, 0xD7A3), (0xF900, 0xFA6D), (0x20000, 0x2A6DF)]

/-- Digits, superscript digits and fractions. -/
def numeralRanges : List (Nat × Nat) :=
  [(0x30, 0x39), (0xB2, 0xB3), (0xB9, 0xB9), (0xBC, 0xBE)]

def isLetter (c : Char) : Bool :=
  inRanges letterRanges c.toNat

def isWord (c : Char) : Bool :=
  isLetter c || inRanges numeralRanges c.toNat || c = '_'

def isCapital (c : Char) : Bool :=
  'A' ≤ c && c ≤ 'Z'

def upperRanges : List (Nat × Nat) :=
  [(0x41, 0x5A), (0xC0, 0xD6), (0xD8, 0xDE)]

def lowerRanges : List (Nat × Nat) :=
  [(0x61, 0x7A), (0xE0, 0xF6), (0xF8, 0xFE)]

def lower (c : Char) : Char :=
  if inRanges upperRanges c.toNat then Char.ofNat (c.toNat + 32) else c

/-- The form of a letter at the head of a capitalised word. Sharp s, which has
no capital of its own, becomes two letters. -/
def title (c : Char) : List Char :=
  if c = 'ß' then ['S', 's']
  else if c = 'µ' then ['\u039c']
  else if c = 'ÿ' then ['\u0178']
  else if inRanges lowerRanges c.toNat then [Char.ofNat (c.toNat - 32)]
  else [c]

/-- The first character in its title form, all others in lower case. -/
def capitalize : List Char → List Char
  | [] => []
  | c :: rest => title c ++ rest.map lower

end SchemaClasses.Text
