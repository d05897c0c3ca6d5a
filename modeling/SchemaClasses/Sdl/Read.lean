import SchemaClasses.Sdl.Grammar.Definition

/-!
Reading whole texts.
-/

namespace SchemaClasses.Sdl

open Schema

def Rule.run {α : Type} (rule : Rule α) (source : String) : Except Fault α :=
  match tokens source with
  | .fault found => .error found
  | stream => (rule stream).map Prod.fst

/-- The definitions of a schema text, of which there is at least one. -/
def readDocument (source : String) : Except Fault Document :=
  Grammar.document.run source

/-- A text that holds one type reference and nothing else. -/
def readTypeRef (source : String) : Except Fault TypeRef :=
  Rule.run (do
    let type ← Grammar.typeRef
    Rule.finish
    return type) source

end SchemaClasses.Sdl
