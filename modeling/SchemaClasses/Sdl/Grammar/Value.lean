import SchemaClasses.Schema.TypeExpr
import SchemaClasses.Sdl.Rule

/-!
Type references, values, arguments and directives. Values and directives are only
recognised. A constant value holds no variables.
-/

namespace SchemaClasses.Sdl.Grammar

open Schema Rule

def typeRef : Rule TypeRef :=
  nested fun inner => do
    let type ← do
      if ← skip .bracketL then
        let item ← inner
        expect .bracketR
        pure (.list item)
      else
        pure (.leaf (← name))
    if ← skip .bang then return .nonNull type else return type

def variableUse : Rule Unit := do
  expect .dollar
  let _ ← name

/-- The variable is reported where it starts. -/
def variableInConstant : Rule Unit := do
  let start ← position
  expect .dollar
  match ← current with
  | .name word => failAt start (.variableInConstant word.text)
  | _ => failAt start (.unexpected (.punctuator .dollar))

def value (constant : Bool) : Rule Unit :=
  nested fun inner => do
    match ← current with
    | .punctuator .bracketL => let _ ← bracketedAny .bracketL inner .bracketR
    | .punctuator .braceL =>
        let entry : Rule Unit := do
          let _ ← name
          expect .colon
          inner
        let _ ← bracketedAny .braceL entry .braceR
    | .punctuator .dollar => if constant then variableInConstant else variableUse
    | .punctuator _ => unexpected
    | .finish => unexpected
    | _ => advance

def argument (constant : Bool) : Rule Unit := do
  let _ ← name
  expect .colon
  value constant

def arguments (constant : Bool) : Rule Unit := do
  let _ ← optionalList .parenL (argument constant) .parenR

/-- Whether there was any directive. -/
def directives (constant : Bool) : Rule Bool :=
  nested fun more => do
    if ← skip .at then
      let _ ← name
      arguments constant
      let _ ← more
      return true
    else return false

def description : Rule (Option String) := do
  match ← current with
  | .string text =>
      advance
      return text
  | .blockString text =>
      advance
      return text
  | _ => return none

end SchemaClasses.Sdl.Grammar
