import SchemaClasses.Build.Recorded

/-!
What a run has gathered: the symbols to import, each once and in the order in which
they were first needed, and the root operation types.
-/

namespace SchemaClasses.Build

open Schema

structure Context where
  symbols : List String := []
  query : String := "Query"
  mutation : Option String := none
  subscription : Option String := none
  deriving DecidableEq, Repr

namespace Context

def addSymbol (context : Context) (symbol : String) : Context :=
  if symbol ∈ context.symbols then context
  else { context with symbols := context.symbols ++ [symbol] }

def appoint (context : Context) (type : String) : Operation → Context
  | .query => { context with query := type }
  | .mutation => { context with mutation := some type }
  | .subscription => { context with subscription := some type }

/-- There is always a query type, so only the other two can still be open. -/
def offer (context : Context) (type : String) : Operation → Context
  | .query => context
  | .mutation => { context with mutation := context.mutation <|> some type }
  | .subscription => { context with subscription := context.subscription <|> some type }

def record (context : Context) : Note → Context
  | .uses symbol => context.addSymbol symbol
  | .appoints operation type => context.appoint type operation
  | .offers operation type => context.offer type operation

def recordAll (context : Context) (notes : List Note) : Context :=
  notes.foldl record context

end Context

/-- The outcome of a construction, and the context with its notes. -/
def Recorded.runIn {α : Type} (construction : Recorded α) (context : Context) :
    Except Refusal α × Context :=
  (construction.outcome, context.recordAll construction.notes)

end SchemaClasses.Build
