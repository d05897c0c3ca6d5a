/-!
White space. A text is blank when nothing is left of it after its white space
is trimmed. The zero-width space and the byte order mark are not white space.
-/

namespace SchemaClasses.Text

/-- Whether a code point lies in one of the given closed ranges. -/
def inRanges (ranges : List (Nat × Nat)) (point : Nat) : Bool :=
  ranges.any fun range => range.1 ≤ point && point ≤ range.2

def blankRanges : List (Nat × Nat) :=
  [(0x09, 0x0D), (0x1C, 0x20), (0x85, 0x85), (0xA0, 0xA0), (0x1680, 0x1680),
   (0x2000, 0x200A), (0x2028, 0x2029), (0x202F, 0x202F), (0x205F, 0x205F),
   (0x3000, 0x3000)]

def isBlank (c : Char) : Bool :=
  inRanges blankRanges c.toNat

def isBlankText (text : String) : Bool :=
  text.toList.all isBlank

def trimStart (line : List Char) : List Char :=
  line.dropWhile isBlank

end SchemaClasses.Text
