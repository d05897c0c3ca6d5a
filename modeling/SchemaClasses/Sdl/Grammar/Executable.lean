import SchemaClasses.Schema.Document
import SchemaClasses.Sdl.Grammar.Value

/-!
Operations and fragments. Their bodies are recognised and not kept.
-/

namespace SchemaClasses.Sdl.Grammar

open Schema Rule

def fragmentName : Rule Name := do
  if (← current).value? = some "on" then unexpected else name

/-- A spread of a named fragment, or a fragment in place. -/
def fragmentSpread (selections : Rule Unit) : Rule Unit := do
  expect .spread
  if ← skipKeyword "on" then
    let _ ← name
    let _ ← directives false
    selections
  else match ← current with
    | .name _ =>
        let _ ← fragmentName
        let _ ← directives false
    | _ =>
        let _ ← directives false
        selections

def fieldSelection (selections : Rule Unit) : Rule Unit := do
  let _ ← name
  if ← skip .colon then
    let _ ← name
  arguments false
  let _ ← directives false
  if ← peek .braceL then selections

def selectionSet : Rule Unit :=
  nested fun inner => do
    let selection : Rule Unit := do
      if ← peek .spread then fragmentSpread inner else fieldSelection inner
    let _ ← bracketed .braceL selection .braceR

def operationType : Rule Operation := do
  let start ← position
  let word ← name
  match word.text with
  | "query" => return .query
  | "mutation" => return .mutation
  | "subscription" => return .subscription
  | _ => failAt start (.unexpected (.name word))

def variableDefinition : Rule Unit := do
  let _ ← description
  variableUse
  expect .colon
  let _ ← typeRef
  if ← skip .equals then value true
  let _ ← directives true

def operation : Rule Definition := do
  let described ← description
  let _ ← operationType
  let named ← do
    match ← current with
    | .name word =>
        advance
        pure (some word)
    | _ => pure none
  let _ ← optionalList .parenL variableDefinition .parenR
  let _ ← directives false
  selectionSet
  return .operation described named

def fragment : Rule Definition := do
  let described ← description
  keyword "fragment"
  let named ← fragmentName
  keyword "on"
  let _ ← name
  let _ ← directives false
  selectionSet
  return .fragment described named

end SchemaClasses.Sdl.Grammar
