import SchemaClasses.Check.Statement

/-!
Whether a text compiles as a Python module. A null character is refused before all
else, and a lexical flaw anywhere comes before invalid syntax.
-/

namespace SchemaClasses.Check

inductive Problem where
  | nullCharacter
  | flaw (flaw : Flaw)
  deriving DecidableEq, Repr

/-- Invalid syntax past a bracket that is never closed is put down to the bracket. -/
def Outline.blame (outline : Outline) (flaw : Flaw) : Flaw :=
  match flaw.kind, outline.unclosed with
  | .invalidSyntax, some line => if line < flaw.line then { flaw with kind := .unspecified } else flaw
  | _, _ => flaw

/-- The first flaw of an outline. -/
def Outline.flaw? (outline : Outline) : Option Flaw :=
  match Machine.readAll {} outline.tokens with
  | .error flaw => some (outline.blame flaw)
  | .ok machine =>
      match outline.unclosed with
      | some line => some ⟨.unspecified, line⟩
      | none => if machine.phase = .statement then machine.issue else some ⟨.unspecified, 0⟩

def problem? (text : String) : Option Problem :=
  if text.toList.contains '\x00' then some .nullCharacter
  else match outline text with
    | .error flaw => some (.flaw flaw)
    | .ok outline => outline.flaw?.map .flaw

end SchemaClasses.Check
