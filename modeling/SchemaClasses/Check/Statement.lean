import SchemaClasses.Check.Layout
import SchemaClasses.Naming.Reserved

/-!
Statements of a module text: imports, class statements, assignments, `pass`, and
expressions made of names, numbers, texts, calls, tuples, lists and mappings. Tokens
are taken one at a time; open brackets and open classes stand on stacks. A token that
does not fit is invalid syntax. Assignments to `__debug__` and repeated keywords do not
stop the reading: of these the first in the order of compilation is remembered.
-/

namespace SchemaClasses.Check

open Naming

abbrev Issue := Option Flaw

structure Occurrence where
  name : String
  line : Nat
  deriving DecidableEq, Repr

/-- Names that are assigned in order. -/
def assignmentIssue : List Occurrence → Issue
  | [] => none
  | target :: rest =>
      if target.name = "__debug__" then some ⟨.assignsDebug, target.line⟩
      else assignmentIssue rest

/-- Keywords of a call in order. -/
def keywordIssue : List Occurrence → Issue
  | [] => none
  | keyword :: rest =>
      if keyword.name = "__debug__" then some ⟨.assignsDebug, keyword.line⟩
      else match rest.find? (·.name = keyword.name) with
        | some again => some ⟨.repeatedKeyword keyword.name, again.line⟩
        | none => keywordIssue rest

section

/-! Open brackets. -/

structure Arguments where
  keywords : List Occurrence := []
  /-- Whether the argument being read has its keyword. -/
  keyed : Bool := false
  issue : Issue := none
  deriving DecidableEq, Repr

inductive Frame where
  | call (arguments : Arguments)
  | bases (owner : Occurrence) (arguments : Arguments)
  | items (close : Char) (issue : Issue)
  /-- `valued` while a value is read, after its key. -/
  | entries (valued : Bool) (issue : Issue)
  deriving DecidableEq, Repr

/-- The keywords of a call are looked at before its arguments. -/
def Arguments.allIssues (arguments : Arguments) : Issue :=
  keywordIssue arguments.keywords <|> arguments.issue

def Frame.addIssue (issue : Issue) : Frame → Frame
  | .call arguments => .call { arguments with issue := arguments.issue <|> issue }
  | .bases owner arguments => .bases owner { arguments with issue := arguments.issue <|> issue }
  | .items close earlier => .items close (earlier <|> issue)
  | .entries valued earlier => .entries valued (earlier <|> issue)

end

section

/-! The state between two tokens. -/

/-- The operand read last. -/
inductive Operand where
  | name (text : String)
  | text
  | compound
  deriving DecidableEq, Repr

structure ClassHead where
  name : Occurrence
  issue : Issue := none
  deriving DecidableEq, Repr

/-- The bases of a class are compiled before its name is bound. -/
def ClassHead.allIssues (head : ClassHead) : Issue :=
  head.issue <|> assignmentIssue [head.name]

inductive Phase where
  | statement
  /-- After a statement that is complete. -/
  | ended
  /-- After `from`, perhaps with dots. -/
  | fromDots (any : Bool)
  | fromName
  | fromDot
  | importedName
  | afterImported
  | importPath
  | afterImportPath
  | className (line : Nat)
  | classHead (head : ClassHead)
  | classColon (head : ClassHead)
  | classLine (head : ClassHead)
  | classBlock (head : ClassHead)
  /-- An operand comes, or the end of the bracket if that may be. -/
  | operand (closable : Bool)
  | afterOperand (operand : Operand)
  | memberName
  deriving DecidableEq, Repr

structure Machine where
  phase : Phase := .statement
  frames : List Frame := []
  /-- Names that the statement being read assigns. -/
  targets : List Occurrence := []
  /-- The first issue of the expressions of that statement. -/
  valueIssue : Issue := none
  /-- The classes around it, the innermost first. -/
  classes : List ClassHead := []
  /-- The first issue of what was read before. -/
  issue : Issue := none
  deriving DecidableEq, Repr

end

namespace Machine

def invalid {α : Type} (token : Token) : Except Flaw α :=
  .error ⟨.invalidSyntax, token.line⟩

def unspecified {α : Type} (token : Token) : Except Flaw α :=
  .error ⟨.unspecified, token.line⟩

def goTo (machine : Machine) (phase : Phase) : Except Flaw Machine :=
  .ok { machine with phase }

/-- A word that may be a name. -/
def nameOf? : Mark → Option String
  | .word text => if isKeyword text then none else some text
  | _ => none

section

/-! Expressions. -/

def constants : List String := ["None", "True", "False"]

def pushFrame (machine : Machine) (frame : Frame) : Except Flaw Machine :=
  .ok { machine with frames := frame :: machine.frames, phase := .operand true }

def setFrame (machine : Machine) (frame : Frame) (phase : Phase) : Except Flaw Machine :=
  .ok { machine with frames := frame :: machine.frames.drop 1, phase }

/-- The innermost bracket is closed, and what it holds is an operand. -/
def closeOperand (machine : Machine) (issue : Issue) : Except Flaw Machine :=
  let closed := { machine with phase := .afterOperand .compound }
  match machine.frames.drop 1 with
  | [] => .ok { closed with frames := [], valueIssue := machine.valueIssue <|> issue }
  | outer :: others => .ok { closed with frames := outer.addIssue issue :: others }

def closeFrame (machine : Machine) (token : Token) : Except Flaw Machine :=
  match machine.frames, token.mark with
  | .call arguments :: _, .sign ')' => machine.closeOperand arguments.allIssues
  | .bases owner arguments :: outer, .sign ')' =>
      .ok { machine with
        frames := outer, phase := .classColon ⟨owner, arguments.allIssues⟩ }
  | .items close issue :: _, .sign c =>
      if c = close then machine.closeOperand issue else invalid token
  | .entries _ issue :: _, .sign '\x7d' => machine.closeOperand issue
  | _, _ => invalid token

def readOperand (machine : Machine) (closable : Bool) (token : Token) : Except Flaw Machine :=
  match token.mark with
  | .word text =>
      if constants.contains text then machine.goTo (.afterOperand .compound)
      else if isKeyword text then invalid token
      else machine.goTo (.afterOperand (.name text))
  | .number => machine.goTo (.afterOperand .compound)
  | .text _ => machine.goTo (.afterOperand .text)
  | .sign '(' => machine.pushFrame (.items ')' none)
  | .sign '[' => machine.pushFrame (.items ']' none)
  | .sign '\x7b' => machine.pushFrame (.entries false none)
  | .sign _ => if closable then machine.closeFrame token else invalid token
  | _ => invalid token

/-- No argument without a keyword stands after one with a keyword. -/
def Arguments.inOrder (arguments : Arguments) : Bool :=
  arguments.keyed || arguments.keywords.isEmpty

def readComma (machine : Machine) (token : Token) : Except Flaw Machine :=
  match machine.frames with
  | .call arguments :: _ =>
      if Arguments.inOrder arguments then
        machine.setFrame (.call { arguments with keyed := false }) (.operand true)
      else unspecified token
  | .bases owner arguments :: _ =>
      if Arguments.inOrder arguments then
        machine.setFrame (.bases owner { arguments with keyed := false }) (.operand true)
      else unspecified token
  | .items _ _ :: _ => machine.goTo (.operand true)
  | .entries true issue :: _ => machine.setFrame (.entries false issue) (.operand true)
  | _ => invalid token

def Arguments.addKeyword (arguments : Arguments) (name : String) (line : Nat) : Arguments :=
  { arguments with keywords := arguments.keywords ++ [⟨name, line⟩], keyed := true }

/-- An equals sign makes the name before it a keyword, or what is assigned. -/
def readEquals (machine : Machine) (operand : Operand) (token : Token) : Except Flaw Machine :=
  match machine.frames, operand with
  | [], .name name =>
      .ok { machine with
        targets := machine.targets ++ [⟨name, token.line⟩], phase := .operand false }
  | [], _ => unspecified token
  | .call arguments :: _, .name name =>
      if arguments.keyed then invalid token
      else machine.setFrame (.call (Arguments.addKeyword arguments name token.line)) (.operand false)
  | .bases owner arguments :: _, .name name =>
      if arguments.keyed then invalid token
      else
        machine.setFrame (.bases owner (Arguments.addKeyword arguments name token.line))
          (.operand false)
  | _, _ => invalid token

def readColon (machine : Machine) (token : Token) : Except Flaw Machine :=
  match machine.frames with
  | .entries false issue :: _ => machine.setFrame (.entries true issue) (.operand false)
  | _ => invalid token

/-- Whether the bracket may be closed after an operand. -/
def isClosable (machine : Machine) : Bool :=
  match machine.frames with
  | .call arguments :: _ => Arguments.inOrder arguments
  | .bases _ arguments :: _ => Arguments.inOrder arguments
  | .entries valued _ :: _ => valued
  | _ => true

/-- The value of an assignment is compiled before its targets. -/
def endStatement (machine : Machine) : Machine :=
  { machine with
    phase := .statement
    targets := []
    valueIssue := none
    issue := machine.issue <|> machine.valueIssue <|> assignmentIssue machine.targets }

def readAfterOperand (machine : Machine) (operand : Operand) (token : Token) :
    Except Flaw Machine :=
  match token.mark with
  | .sign '(' => machine.pushFrame (.call {})
  | .sign ',' => machine.readComma token
  | .sign '=' => machine.readEquals operand token
  | .sign ':' => machine.readColon token
  | .sign '.' => machine.goTo .memberName
  | .sign _ => if machine.isClosable then machine.closeFrame token else unspecified token
  | .text _ => if operand = .text then machine.goTo (.afterOperand .text) else invalid token
  | .newline => if machine.frames.isEmpty then .ok machine.endStatement else invalid token
  | .word _ | .number | .indent | .dedent => invalid token

end

section

/-! Statements. -/

def endClass (machine : Machine) (token : Token) : Except Flaw Machine :=
  match machine.classes with
  | [] => unspecified token
  | head :: outer =>
      .ok { machine with classes := outer, issue := machine.issue <|> head.allIssues }

def readStatement (machine : Machine) (token : Token) : Except Flaw Machine :=
  match token.mark with
  | .dedent => machine.endClass token
  | .indent => unspecified token
  | .word "class" => machine.goTo (.className token.line)
  | .word "pass" => machine.goTo .ended
  | .word "from" => machine.goTo (.fromDots false)
  | .word "import" => machine.goTo .importPath
  | _ => machine.readOperand false token

/-- A name where nothing else fits. -/
def readName (token : Token) (next : String → Except Flaw Machine) : Except Flaw Machine :=
  match nameOf? token.mark with
  | some name => next name
  | none => invalid token

def readFrom (machine : Machine) (any : Bool) (token : Token) : Except Flaw Machine :=
  match token.mark with
  | .sign '.' => machine.goTo (.fromDots true)
  | .word "import" => if any then machine.goTo .importedName else invalid token
  | _ => readName token fun _ => machine.goTo .fromName

def readFromName (machine : Machine) (token : Token) : Except Flaw Machine :=
  match token.mark with
  | .sign '.' => machine.goTo .fromDot
  | .word "import" => machine.goTo .importedName
  | _ => invalid token

def readImported (machine : Machine) (token : Token) : Except Flaw Machine :=
  match token.mark with
  | .sign '*' => machine.goTo .ended
  | _ => readName token fun name =>
      .ok { machine with
        targets := machine.targets ++ [⟨name, token.line⟩], phase := .afterImported }

def readAfterImported (machine : Machine) (token : Token) : Except Flaw Machine :=
  match token.mark with
  | .sign ',' => machine.goTo .importedName
  | .newline => .ok machine.endStatement
  | _ => invalid token

def readAfterImportPath (machine : Machine) (token : Token) : Except Flaw Machine :=
  match token.mark with
  | .sign '.' => machine.goTo .importPath
  | .sign ',' => machine.goTo .importPath
  | .newline => .ok machine.endStatement
  | _ => invalid token

def readClassHead (machine : Machine) (head : ClassHead) (token : Token) : Except Flaw Machine :=
  match token.mark with
  | .sign '(' => machine.pushFrame (.bases head.name {})
  | .sign ':' => machine.goTo (.classLine head)
  | _ => invalid token

def read (machine : Machine) (token : Token) : Except Flaw Machine :=
  match machine.phase with
  | .statement => machine.readStatement token
  | .ended => if token.mark = .newline then .ok machine.endStatement else invalid token
  | .fromDots any => machine.readFrom any token
  | .fromName => machine.readFromName token
  | .fromDot => readName token fun _ => machine.goTo .fromName
  | .importedName => machine.readImported token
  | .afterImported => machine.readAfterImported token
  | .importPath => readName token fun _ => machine.goTo .afterImportPath
  | .afterImportPath => machine.readAfterImportPath token
  | .className line => readName token fun name => machine.goTo (.classHead ⟨⟨name, line⟩, none⟩)
  | .classHead head => machine.readClassHead head token
  | .classColon head =>
      if token.mark = .sign ':' then machine.goTo (.classLine head) else invalid token
  | .classLine head =>
      if token.mark = .newline then machine.goTo (.classBlock head) else invalid token
  | .classBlock head =>
      if token.mark = .indent then
        .ok { machine with phase := .statement, classes := head :: machine.classes }
      else unspecified token
  | .operand closable => machine.readOperand closable token
  | .afterOperand operand => machine.readAfterOperand operand token
  | .memberName => readName token fun _ => machine.goTo (.afterOperand .compound)

def readAll (machine : Machine) : List Token → Except Flaw Machine
  | [] => .ok machine
  | token :: rest =>
      match machine.read token with
      | .error flaw => .error flaw
      | .ok next => next.readAll rest

end

end Machine

end SchemaClasses.Check
