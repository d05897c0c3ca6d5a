import SchemaClasses.Check.Flaw
import SchemaClasses.Text.Letter
import SchemaClasses.Text.Lines

/-!
The lexical layout of a module text: words, numbers, texts and signs, the ends of
logical lines, and the indentation of blocks. The text is read one character at a
time, so what is known before a character is a value of its own.
-/

namespace SchemaClasses.Check

open Text

inductive Mark where
  | word (text : String)
  | number
  /-- A text by what stands between its quotes. -/
  | text (body : List Char)
  | sign (character : Char)
  | newline
  | indent
  | dedent
  deriving DecidableEq, Repr

structure Token where
  mark : Mark
  line : Nat
  deriving DecidableEq, Repr

/-- Where in a line the reader stands. What was read of a token is held backwards. -/
inductive Mode where
  /-- In the leading white space of a line. -/
  | margin (width : Nat)
  | code
  /-- `aside` if nothing but the comment is on the line. -/
  | comment (aside : Bool)
  | word (read : List Char)
  | number (read : List Char)
  /-- After one or two quotes that may open a text. -/
  | quotes (quote : Char) (count : Nat) (start : Nat)
  /-- `run` quotes have just been read, of the three that close a long text. -/
  | text (quote : Char) (long : Bool) (run : Nat) (escaped : Bool) (read : List Char) (start : Nat)
  /-- After a backslash that continues the line. -/
  | continuation
  deriving DecidableEq, Repr

def maxBrackets : Nat := 200

structure Layout where
  mode : Mode := .margin 0
  line : Nat := 1
  /-- Open brackets with their lines, the innermost first. -/
  brackets : List (Char × Nat) := []
  /-- Indentation of the enclosing blocks, the innermost first. -/
  indents : List Nat := []
  /-- How many brackets may be open at once, if there is a limit. -/
  limit : Option Nat := some maxBrackets
  deriving DecidableEq, Repr

abbrev Reading := Except Flaw (Layout × List Token)

namespace Layout

def flawed {α : Type} (layout : Layout) (kind : FlawKind) : Except Flaw α :=
  .error ⟨kind, layout.line⟩

def goOn (layout : Layout) (mode : Mode) : Reading :=
  .ok ({ layout with mode }, [])

def emit (layout : Layout) (mode : Mode) (mark : Mark) : Reading :=
  .ok ({ layout with mode }, [⟨mark, layout.line⟩])

/-- Tokens that come before those of a reading. -/
def after (tokens : List Token) (reading : Reading) : Reading :=
  reading.map fun (layout, more) => (layout, tokens ++ more)

section

/-! Brackets and line ends. A line goes on as long as a bracket is open. -/

def closerOf : Char → Char
  | '(' => ')'
  | '[' => ']'
  | _ => '\x7d'

def isOpener (c : Char) : Bool :=
  c = '(' || c = '[' || c = '\x7b'

def isCloser (c : Char) : Bool :=
  c = ')' || c = ']' || c = '\x7d'

def openBracket (layout : Layout) (c : Char) : Reading :=
  if layout.limit.any (· ≤ layout.brackets.length) then layout.flawed .tooManyBrackets
  else
    emit { layout with brackets := (c, layout.line) :: layout.brackets } .code (.sign c)

def closeBracket (layout : Layout) (c : Char) : Reading :=
  match layout.brackets with
  | [] => layout.flawed .unspecified
  | (opener, _) :: outer =>
      if closerOf opener = c then emit { layout with brackets := outer } .code (.sign c)
      else layout.flawed .unspecified

def nextLine (layout : Layout) : Layout :=
  { layout with line := layout.line + 1 }

def endLine (layout : Layout) : Reading :=
  if layout.brackets.isEmpty then
    after [⟨.newline, layout.line⟩] (layout.nextLine.goOn (.margin 0))
  else layout.nextLine.goOn .code

end

section

/-! Indentation. A block ends where the margin returns to that of a block around it. -/

def indentTo (layout : Layout) (width : Nat) : Reading :=
  let current := layout.indents.head?.getD 0
  if width = current then layout.goOn .code
  else if current < width then
    emit { layout with indents := width :: layout.indents } .code .indent
  else
    let outer := layout.indents.dropWhile (width < ·)
    if outer.head?.getD 0 = width then
      .ok ({ layout with mode := .code, indents := outer },
        List.replicate (layout.indents.length - outer.length) ⟨.dedent, layout.line⟩)
    else layout.flawed .unspecified

end

section

/-! Words and numbers. -/

def isWordStart (c : Char) : Bool :=
  c.isAlpha || c = '_' || 128 ≤ c.toNat

def isWordPart (c : Char) : Bool :=
  c.isAlphanum || c = '_' || 128 ≤ c.toNat

def isCombining (c : Char) : Bool :=
  0x300 ≤ c.toNat && c.toNat ≤ 0x36F

def isIdentifier : List Char → Bool
  | [] => false
  | first :: rest =>
      (isLetter first || first = '_') &&
        rest.all fun c => isLetter c || c.isDigit || c = '_' || isCombining c

def endWord (layout : Layout) (read : List Char) : Reading :=
  if isIdentifier read.reverse then layout.emit .code (.word (String.ofList read.reverse))
  else layout.flawed .unspecified

/-- A number other than zero does not start with a zero. -/
def isNumber (digits : List Char) : Bool :=
  digits.head? != some '0' || digits.length = 1 || digits.contains '.' || digits.all (· = '0')

def endNumber (layout : Layout) (read : List Char) : Reading :=
  if isNumber read.reverse then layout.emit .code .number else layout.flawed .unspecified

end

section

/-! One character. -/

/-- A character that does not belong to a token begun before it. -/
def readCode (layout : Layout) (c : Char) : Reading :=
  if c = ' ' || c = '\t' || c = '\x0c' then layout.goOn .code
  else if c = '#' then layout.goOn (.comment false)
  else if c = '\n' then layout.endLine
  else if c = '\\' then layout.goOn .continuation
  else if isWordStart c then layout.goOn (.word [c])
  else if c.isDigit then layout.goOn (.number [c])
  else if c = '\x27' || c = '"' then layout.goOn (.quotes c 1 layout.line)
  else if isOpener c then layout.openBracket c
  else if isCloser c then layout.closeBracket c
  else if '!' ≤ c && c ≤ '~' then layout.emit .code (.sign c)
  else layout.flawed .unspecified

/-- A character after the end of a token. -/
def readAfter (ended : Reading) (c : Char) : Reading :=
  match ended with
  | .error flaw => .error flaw
  | .ok (layout, tokens) => after tokens (layout.readCode c)

def readMargin (layout : Layout) (width : Nat) (c : Char) : Reading :=
  if c = ' ' then layout.goOn (.margin (width + 1))
  else if c = '\t' then layout.goOn (.margin ((width / 8 + 1) * 8))
  else if c = '\x0c' then layout.goOn (.margin 0)
  else if c = '\n' then layout.nextLine.goOn (.margin 0)
  else if c = '#' then layout.goOn (.comment true)
  else readAfter (layout.indentTo width) c

def readComment (layout : Layout) (aside : Bool) (c : Char) : Reading :=
  if c ≠ '\n' then layout.goOn (.comment aside)
  else if aside then layout.nextLine.goOn (.margin 0)
  else layout.endLine

def endText (layout : Layout) (read : List Char) (start : Nat) : Reading :=
  .ok ({ layout with mode := .code }, [⟨.text read.reverse, start⟩])

/-- A short text ends on its line. A long text ends at the third of three quotes. -/
def readText (layout : Layout) (quote : Char) (long : Bool) (run : Nat) (escaped : Bool)
    (read : List Char) (start : Nat) (c : Char) : Reading :=
  let here := if c = '\n' then layout.nextLine else layout
  if escaped then here.goOn (.text quote long 0 false (c :: read) start)
  else if c = '\\' then here.goOn (.text quote long 0 true (c :: read) start)
  else if c = quote then
    if !long then layout.endText read start
    else if run = 2 then layout.endText (read.drop 2) start
    else layout.goOn (.text quote long (run + 1) false (c :: read) start)
  else if c = '\n' && !long then layout.flawed .unspecified
  else here.goOn (.text quote long 0 false (c :: read) start)

def readQuotes (layout : Layout) (quote : Char) (count start : Nat) (c : Char) : Reading :=
  if count = 1 then
    if c = quote then layout.goOn (.quotes quote 2 start)
    else layout.readText quote false 0 false [] start c
  else if c = quote then layout.goOn (.text quote true 0 false [] start)
  else readAfter (layout.endText [] start) c

def read (layout : Layout) (c : Char) : Reading :=
  match layout.mode with
  | .margin width => layout.readMargin width c
  | .code => layout.readCode c
  | .comment aside => layout.readComment aside c
  | .word read =>
      if isWordPart c then layout.goOn (.word (c :: read)) else readAfter (layout.endWord read) c
  | .number read =>
      if c.isDigit || c = '.' then layout.goOn (.number (c :: read))
      else if isWordStart c then layout.flawed .unspecified
      else readAfter (layout.endNumber read) c
  | .quotes quote count start => layout.readQuotes quote count start c
  | .text quote long run escaped read start =>
      layout.readText quote long run escaped read start c
  | .continuation =>
      if c = '\n' then layout.nextLine.goOn .code else layout.flawed .unspecified

end

section

/-! Whole texts. -/

def readAll (layout : Layout) : List Char → Reading
  | [] => .ok (layout, [])
  | c :: rest =>
      match layout.read c with
      | .error flaw => .error flaw
      | .ok (next, tokens) => after tokens (next.readAll rest)

/-- At the end of the text every block ends. A bracket may still be open, but no text. -/
def finish (layout : Layout) : Except Flaw (List Token) :=
  match layout.mode with
  | .text .. => layout.flawed .unspecified
  | .code =>
      if layout.brackets.isEmpty then layout.flawed .unspecified else .ok []
  | _ => .ok (List.replicate layout.indents.length ⟨.dedent, layout.line⟩)

end

end Layout

/-- The text with its line ends unified and one at its end. -/
def sourceText (text : List Char) : List Char :=
  let unified := unifyNewlines text
  if unified.getLast? = some '\n' then unified else unified ++ ['\n']

structure Outline where
  tokens : List Token
  /-- The line of the innermost bracket that is never closed. -/
  unclosed : Option Nat

def outline (text : String) : Except Flaw Outline := do
  let (layout, tokens) ← Layout.readAll {} (sourceText text.toList)
  let ending ← layout.finish
  return ⟨tokens ++ ending, layout.brackets.head?.map Prod.snd⟩

end SchemaClasses.Check
