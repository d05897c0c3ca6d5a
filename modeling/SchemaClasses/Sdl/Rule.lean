import SchemaClasses.Sdl.Tokens

/-!
Reading a stream of tokens. The next token is looked at as soon as the current one is
taken, so a lexical fault in it comes before any complaint about what was taken.
-/

namespace SchemaClasses.Sdl

open Schema

abbrev Rule := StateT Tokens (Except Fault)

namespace Rule

section

/-! The current token. -/

def current : Rule Lexeme := do
  return (← get).lexeme

def position : Rule Position := do
  return (← get).position

def failAt {α : Type} (position : Position) (cause : Cause) : Rule α :=
  throw ⟨cause, position⟩

def fail {α : Type} (cause : Cause) : Rule α := do
  failAt (← position) cause

def unexpected {α : Type} : Rule α := do
  fail (.unexpected (← current))

def advance : Rule Unit := do
  match ← get with
  | .token _ _ (.fault found) => throw found
  | .token _ _ rest => set rest
  | _ => pure ()

/-- The token after the current one, and where it stands. -/
def lookahead : Rule (Lexeme × Position) := do
  match ← get with
  | .token _ _ (.fault found) => throw found
  | .token _ _ rest => return (rest.lexeme, rest.position)
  | tokens => return (tokens.lexeme, tokens.position)

end

section

/-! Single tokens. -/

def peek (mark : Punctuator) : Rule Bool := do
  return (← current) = .punctuator mark

def expect (mark : Punctuator) : Rule Unit := do
  if ← peek mark then advance
  else fail (.expected (.punctuator mark) (← current))

/-- Takes the punctuator if it is there. -/
def skip (mark : Punctuator) : Rule Bool := do
  if ← peek mark then
    advance
    return true
  else return false

def name : Rule Name := do
  match ← current with
  | .name word =>
      advance
      return word
  | found => fail (.expected .name found)

def isWord (lexeme : Lexeme) (word : String) : Bool :=
  match lexeme with
  | .name found => found.text = word
  | _ => false

def keyword (word : String) : Rule Unit := do
  let found ← current
  if isWord found word then advance else fail (.expected (.keyword word) found)

def skipKeyword (word : String) : Rule Bool := do
  if isWord (← current) word then
    advance
    return true
  else return false

def finish : Rule Unit := do
  match ← current with
  | .finish => return ()
  | found => fail (.expected .finish found)

end

section

/-! Rules that refer to themselves. Every reference is one level deeper, and a rule
takes a token before it refers to itself, so there are never more levels than tokens. -/

def levels {α : Type} (rule : Rule α → Rule α) : Nat → Rule α
  | 0, tokens => unexpected tokens
  | depth + 1, tokens => rule (levels rule depth) tokens

def nested {α : Type} (rule : Rule α → Rule α) : Rule α := fun tokens =>
  levels rule (tokens.length + 1) tokens

/-- At least one item, up to and with the closing mark. -/
def itemsUntil {α : Type} (item : Rule α) (close : Punctuator) : Rule (List α) :=
  nested fun more => do
    let first ← item
    if ← skip close then return [first] else return first :: (← more)

/-- A list that is not empty, in its brackets. -/
def bracketed {α : Type} (opening : Punctuator) (item : Rule α) (close : Punctuator) :
    Rule (List α) := do
  expect opening
  itemsUntil item close

/-- As `bracketed`, or nothing at all. -/
def optionalList {α : Type} (opening : Punctuator) (item : Rule α) (close : Punctuator) :
    Rule (List α) := do
  if ← skip opening then itemsUntil item close else return []

/-- A list in its brackets that may be empty. -/
def bracketedAny {α : Type} (opening : Punctuator) (item : Rule α) (close : Punctuator) :
    Rule (List α) := do
  expect opening
  nested fun more => do
    if ← skip close then return []
    else
      let first ← item
      return first :: (← more)

/-- At least one item, with a separator between and perhaps before them. -/
def separated {α : Type} (separator : Punctuator) (item : Rule α) : Rule (List α) := do
  let _ ← skip separator
  nested fun more => do
    let first ← item
    if ← skip separator then return first :: (← more) else return [first]

end

end Rule

end SchemaClasses.Sdl
