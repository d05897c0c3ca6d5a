import SchemaClasses.Text.Blank

/-!
Texts of the command line as messages show them: in single quotes, or in double quotes
if there is a single quote and no double quote inside, with what cannot be printed
escaped.
-/

namespace SchemaClasses.Command

def hexDigits (width number : Nat) : List Char :=
  let digits := Nat.toDigits 16 number
  List.replicate (width - digits.length) '0' ++ digits

def isUnprintable (c : Char) : Bool :=
  c.toNat < 0x20 || (0x7F ≤ c.toNat && c.toNat < 0xA1) || c.toNat = 0xAD ||
    (Text.isBlank c && c ≠ ' ') || (0x200B ≤ c.toNat && c.toNat ≤ 0x200F) || c = '\ufeff'

def shownChar (quote c : Char) : List Char :=
  if c = '\\' || c = quote then ['\\', c]
  else if c = '\n' then ['\\', 'n']
  else if c = '\r' then ['\\', 'r']
  else if c = '\t' then ['\\', 't']
  else if !isUnprintable c then [c]
  else if c.toNat < 0x100 then '\\' :: 'x' :: hexDigits 2 c.toNat
  else '\\' :: 'u' :: hexDigits 4 c.toNat

def quoteFor (text : List Char) : Char :=
  if text.contains '\x27' && !text.contains '"' then '"' else '\x27'

def shown (text : String) : String :=
  let quote := quoteFor text.toList
  String.ofList (quote :: text.toList.flatMap (shownChar quote) ++ [quote])

end SchemaClasses.Command
