import SchemaClasses.Schema.Document

/-!
Constructions with a record. A construction yields a value or a refusal, and in both
cases the notes that it made on the way. The value does not depend on notes made
before it, so constructions can be looked at one by one.
-/

namespace SchemaClasses.Build

open Schema

inductive Refusal where
  | malformedType (kind : String)
  | unsupportedArgument (field argument type : String)
  deriving DecidableEq, Repr

def Refusal.message : Refusal → String
  | .malformedType kind => "Expected type node but node was " ++ kind
  | .unsupportedArgument field argument type =>
      "Argument '" ++ argument ++ "' of field '" ++ field ++ "' has type '" ++ type ++
        "'; only built-in scalar arguments are supported"

inductive Note where
  /-- The module needs a symbol of the framework. -/
  | uses (symbol : String)
  /-- A schema block names a root type. -/
  | appoints (operation : Operation) (type : String)
  /-- A type is a root type by its own name, unless one was named before. -/
  | offers (operation : Operation) (type : String)
  deriving DecidableEq, Repr

structure Recorded (α : Type) where
  notes : List Note
  outcome : Except Refusal α

namespace Recorded

def done {α : Type} (value : α) : Recorded α :=
  ⟨[], .ok value⟩

/-- A refusal keeps the notes made so far. -/
def andThen {α β : Type} (first : Recorded α) (next : α → Recorded β) : Recorded β :=
  match first.outcome with
  | .error refusal => ⟨first.notes, .error refusal⟩
  | .ok value =>
      let second := next value
      ⟨first.notes ++ second.notes, second.outcome⟩

instance : Monad Recorded where
  pure := done
  bind := andThen

def record (notes : List Note) : Recorded Unit :=
  ⟨notes, .ok ()⟩

def uses (symbol : String) : Recorded Unit :=
  record [.uses symbol]

def refuse {α : Type} (refusal : Refusal) : Recorded α :=
  ⟨[], .error refusal⟩

def ofExcept {α : Type} (outcome : Except Refusal α) : Recorded α :=
  ⟨[], outcome⟩

/-- One construction after another, in order. -/
def each {α β : Type} (construct : α → Recorded β) : List α → Recorded (List β)
  | [] => done []
  | item :: rest => do
      let value ← construct item
      let values ← each construct rest
      return value :: values

end Recorded

end SchemaClasses.Build
