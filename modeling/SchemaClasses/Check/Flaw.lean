/-!
Flaws that keep a text from being compiled as a Python module. The details of a flaw
name the file, without its directories, and the line.
-/

namespace SchemaClasses.Check

inductive FlawKind where
  | invalidSyntax
  | tooManyBrackets
  | assignsDebug
  | repeatedKeyword (name : String)
  /-- A flaw whose details are not told. -/
  | unspecified
  deriving DecidableEq, Repr

structure Flaw where
  kind : FlawKind
  line : Nat
  deriving DecidableEq, Repr

def FlawKind.summary? : FlawKind → Option String
  | .invalidSyntax => some "invalid syntax"
  | .tooManyBrackets => some "too many nested parentheses"
  | .assignsDebug => some "cannot assign to __debug__"
  | .repeatedKeyword name => some ("keyword argument repeated: " ++ name)
  | .unspecified => none

def lastComponent (path : String) : String :=
  String.ofList (path.toList.reverse.takeWhile (· ≠ '/')).reverse

def Flaw.detail? (flaw : Flaw) (file : String) : Option String :=
  flaw.kind.summary?.map fun summary =>
    summary ++ " (" ++ lastComponent file ++ ", line " ++ toString flaw.line ++ ")"

def Flaw.message (flaw : Flaw) (file : String) : String :=
  "Generated invalid Python: " ++ (flaw.detail? file).getD "..."

end SchemaClasses.Check
