import SchemaClasses.Proofs.UnifiedTokens
import SchemaClasses.Sdl.Read

/-!
Rules of the grammar see lexemes and positions and nothing else of a token. So a rule that
reads alike streams gives the same result and leaves alike rests, or it fails at the same
place of both. A schema text and the same text with its line ends unified are read alike.
-/

namespace SchemaClasses.Sdl

open Schema

namespace Tokens.Alike

variable {first second : Tokens}

theorem lexeme (same : Alike first second) : first.lexeme = second.lexeme := by
  cases same <;> rfl

theorem position (same : Alike first second) : first.position = second.position := by
  cases same with
  | finish => rfl
  | fault place => exact place
  | token => rfl

theorem length (same : Alike first second) : first.length = second.length := by
  induction same with
  | finish => rfl
  | fault => rfl
  | token _ _ _ ih => exact congrArg (· + 1) ih

end Tokens.Alike

open Tokens

/-- On alike streams the rule reads the same and leaves alike streams. -/
def Rule.Uniform {α : Type} (rule : Rule α) : Prop :=
  ∀ first second, Alike first second →
    Matching (fun read again => read.1 = again.1 ∧ Alike read.2 again.2) (rule first) (rule second)

namespace Rule.Uniform

section Combinators

variable {α β : Type}

theorem pure (value : α) : Uniform (Pure.pure value) :=
  fun _ _ same => .ok ⟨rfl, same⟩

theorem bind {rule : Rule α} {next : α → Rule β} (start : Uniform rule)
    (rest : ∀ value, Uniform (next value)) : Uniform (rule >>= next) := by
  intro first second same
  refine Matching.bind (start first second same) fun read again alike => ?_
  obtain ⟨value, _⟩ := read
  obtain ⟨_, _⟩ := again
  obtain ⟨rfl, left⟩ := alike
  exact rest value _ _ left

theorem ite {condition : Prop} [Decidable condition] {rule other : Rule α} (yes : Uniform rule)
    (no : Uniform other) : Uniform (if condition then rule else other) := by
  split
  · exact yes
  · exact no

theorem current : Uniform Rule.current :=
  fun _ _ same => .ok ⟨same.lexeme, same⟩

theorem position : Uniform Rule.position :=
  fun _ _ same => .ok ⟨same.position, same⟩

theorem failAt (place : Position) (cause : Cause) : Uniform (Rule.failAt place cause : Rule α) :=
  fun _ _ _ => .error rfl

theorem fail (cause : Cause) : Uniform (Rule.fail cause : Rule α) :=
  .bind .position fun _ => .failAt _ _

theorem unexpected : Uniform (Rule.unexpected : Rule α) :=
  .bind .current fun _ => .fail _

/-- A fault behind the current token is met on both sides. -/
theorem advance : Uniform Rule.advance := by
  intro first second same
  cases same with
  | finish position => exact .ok ⟨rfl, .finish position⟩
  | fault place => exact .ok ⟨rfl, .fault place⟩
  | token _ _ rest =>
      cases rest with
      | finish position => exact .ok ⟨rfl, .finish position⟩
      | fault place => exact .error place
      | token lexeme position rest => exact .ok ⟨rfl, .token lexeme position rest⟩

theorem lookahead : Uniform Rule.lookahead := by
  intro first second same
  cases same with
  | finish position => exact .ok ⟨rfl, .finish position⟩
  | fault place => exact .ok ⟨congrArg (Lexeme.finish, ·) place, .fault place⟩
  | token _ _ rest =>
      cases rest with
      | finish position => exact .ok ⟨rfl, .token _ _ (.finish position)⟩
      | fault place => exact .error place
      | token lexeme position rest => exact .ok ⟨rfl, .token _ _ (.token lexeme position rest)⟩

theorem nested {rule : Rule α → Rule α} (step : ∀ inner, Uniform inner → Uniform (rule inner)) :
    Uniform (Rule.nested rule) := by
  have deep : ∀ depth, Uniform (levels rule depth) := by
    intro depth
    induction depth with
    | zero => exact unexpected
    | succ depth ih => exact step _ ih
  intro first second same
  rw [Rule.nested, Rule.nested, same.length]
  exact deep _ first second same

end Combinators

section Tokens

variable {α : Type} {item : Rule α}

theorem peek (mark : Punctuator) : Uniform (Rule.peek mark) :=
  .bind .current fun _ => .pure _

theorem expect (mark : Punctuator) : Uniform (Rule.expect mark) :=
  .bind (.peek mark) fun _ => .ite .advance (.bind .current fun _ => .fail _)

theorem skip (mark : Punctuator) : Uniform (Rule.skip mark) :=
  .bind (.peek mark) fun _ => .ite (.bind .advance fun _ => .pure _) (.pure _)

theorem name : Uniform Rule.name := by
  refine .bind .current fun found => ?_
  split
  · exact .bind .advance fun _ => .pure _
  · exact .fail _

theorem keyword (word : String) : Uniform (Rule.keyword word) :=
  .bind .current fun _ => .ite .advance (.fail _)

theorem skipKeyword (word : String) : Uniform (Rule.skipKeyword word) :=
  .bind .current fun _ => .ite (.bind .advance fun _ => .pure _) (.pure _)

theorem itemsUntil (each : Uniform item) (close : Punctuator) :
    Uniform (Rule.itemsUntil item close) :=
  .nested fun _ more => .bind each fun _ => .bind (.skip close) fun _ =>
    .ite (.pure _) (.bind more fun _ => .pure _)

theorem bracketed (opening : Punctuator) (each : Uniform item) (close : Punctuator) :
    Uniform (Rule.bracketed opening item close) :=
  .bind (.expect opening) fun _ => .itemsUntil each close

theorem optionalList (opening : Punctuator) (each : Uniform item) (close : Punctuator) :
    Uniform (Rule.optionalList opening item close) :=
  .bind (.skip opening) fun _ => .ite (.itemsUntil each close) (.pure _)

theorem bracketedAny (opening : Punctuator) (each : Uniform item) (close : Punctuator) :
    Uniform (Rule.bracketedAny opening item close) :=
  .bind (.expect opening) fun _ => .nested fun _ more => .bind (.skip close) fun _ =>
    .ite (.pure _) (.bind each fun _ => .bind more fun _ => .pure _)

theorem separated (separator : Punctuator) (each : Uniform item) :
    Uniform (Rule.separated separator item) :=
  .bind (.skip separator) fun _ => .nested fun _ more => .bind each fun _ =>
    .bind (.skip separator) fun _ => .ite (.bind more fun _ => .pure _) (.pure _)

end Tokens

section Values

theorem typeRef : Uniform Grammar.typeRef := by
  refine .nested fun _ inner => .bind (.skip _) fun _ => ?_
  have marked (type : TypeRef) : Uniform do
      if ← Rule.skip .bang then return TypeExpr.nonNull type else return type :=
    .bind (.skip _) fun _ => .ite (.pure _) (.pure _)
  refine .ite ?_ ?_
  · exact .bind inner fun _ => .bind (.expect _) fun _ => .bind (.pure _) marked
  · exact .bind .name fun _ => .bind (.pure _) marked

theorem variableUse : Uniform Grammar.variableUse :=
  .bind (.expect _) fun _ => .bind .name fun _ => .pure _

theorem variableInConstant : Uniform Grammar.variableInConstant := by
  refine .bind .position fun _ => .bind (.expect _) fun _ => .bind .current fun _ => ?_
  split
  · exact .failAt _ _
  · exact .failAt _ _

theorem value (constant : Bool) : Uniform (Grammar.value constant) := by
  refine .nested fun _ inner => .bind .current fun _ => ?_
  split
  · exact .bind (.bracketedAny _ inner _) fun _ => .pure _
  · refine .bind (.bracketedAny _ ?_ _) fun _ => .pure _
    exact .bind .name fun _ => .bind (.expect _) fun _ => inner
  · exact .ite variableInConstant variableUse
  · exact unexpected
  · exact unexpected
  · exact advance

theorem arguments (constant : Bool) : Uniform (Grammar.arguments constant) := by
  refine .bind (.optionalList _ ?_ _) fun _ => .pure _
  exact .bind .name fun _ => .bind (.expect _) fun _ => .value constant

theorem directives (constant : Bool) : Uniform (Grammar.directives constant) := by
  refine .nested fun _ more => .bind (.skip _) fun _ => .ite ?_ (.pure _)
  exact .bind .name fun _ => .bind (.arguments constant) fun _ => .bind more fun _ => .pure _

theorem description : Uniform Grammar.description := by
  refine .bind .current fun _ => ?_
  split
  · exact .bind .advance fun _ => .pure _
  · exact .bind .advance fun _ => .pure _
  · exact .pure _

end Values

section Executable

theorem fragmentName : Uniform Grammar.fragmentName :=
  .bind .current fun _ => .ite .unexpected .name

theorem fragmentSpread {selections : Rule Unit} (inner : Uniform selections) :
    Uniform (Grammar.fragmentSpread selections) := by
  refine .bind (.expect _) fun _ => .bind (.skipKeyword _) fun _ => .ite ?_ ?_
  · exact .bind .name fun _ => .bind (.directives _) fun _ => inner
  · refine .bind .current fun _ => ?_
    split
    · exact .bind .fragmentName fun _ => .bind (.directives _) fun _ => .pure _
    · exact .bind (.directives _) fun _ => inner

theorem fieldSelection {selections : Rule Unit} (inner : Uniform selections) :
    Uniform (Grammar.fieldSelection selections) := by
  have rest : Uniform (do
      Grammar.arguments false
      let _ ← Grammar.directives false
      if ← Rule.peek .braceL then selections) :=
    .bind (.arguments _) fun _ => .bind (.directives _) fun _ => .bind (.peek _) fun _ =>
      .ite inner (.pure _)
  exact .bind .name fun _ => .bind (.skip _) fun _ => .ite (.bind .name fun _ => rest) rest

theorem selectionSet : Uniform Grammar.selectionSet := by
  refine .nested fun _ inner => .bind (.bracketed _ ?_ _) fun _ => .pure _
  exact .bind (.peek _) fun _ => .ite (.fragmentSpread inner) (.fieldSelection inner)

theorem operationType : Uniform Grammar.operationType := by
  refine .bind .position fun _ => .bind .name fun _ => ?_
  split
  · exact .pure _
  · exact .pure _
  · exact .pure _
  · exact .failAt _ _

theorem variableDefinition : Uniform Grammar.variableDefinition := by
  have rest : Uniform (do
      let _ ← Grammar.directives true) :=
    .bind (.directives _) fun _ => .pure _
  exact .bind .description fun _ => .bind .variableUse fun _ => .bind (.expect _) fun _ =>
    .bind .typeRef fun _ => .bind (.skip _) fun _ => .ite (.bind (.value _) fun _ => rest) rest

theorem operation : Uniform Grammar.operation := by
  have rest (described : Option String) (named : Option Name) : Uniform (do
      let _ ← Rule.optionalList .parenL Grammar.variableDefinition .parenR
      let _ ← Grammar.directives false
      Grammar.selectionSet
      return Definition.operation described named) :=
    .bind (.optionalList _ .variableDefinition _) fun _ => .bind (.directives _) fun _ =>
      .bind .selectionSet fun _ => .pure _
  refine .bind .description fun _ => .bind .operationType fun _ => .bind .current fun _ => ?_
  dsimp only
  split
  · exact .bind .advance fun _ => .bind (.pure _) fun _ => rest _ _
  · exact .bind (.pure _) fun _ => rest _ _

theorem fragment : Uniform Grammar.fragment :=
  .bind .description fun _ => .bind (.keyword _) fun _ => .bind .fragmentName fun _ =>
    .bind (.keyword _) fun _ => .bind .name fun _ => .bind (.directives _) fun _ =>
      .bind .selectionSet fun _ => .pure _

end Executable

section Definitions

theorem inputValue : Uniform Grammar.inputValue := by
  have rest (named : Name) (described : Option String) (type : TypeRef) : Uniform (do
      let _ ← Grammar.directives true
      return InputValue.mk named described type) :=
    .bind (.directives _) fun _ => .pure _
  exact .bind .description fun _ => .bind .name fun _ => .bind (.expect _) fun _ =>
    .bind .typeRef fun _ => .bind (.skip _) fun _ =>
      .ite (.bind (.value _) fun _ => rest _ _ _) (rest _ _ _)

theorem field : Uniform Grammar.field :=
  .bind .description fun _ => .bind .name fun _ => .bind (.optionalList _ .inputValue _) fun _ =>
    .bind (.expect _) fun _ => .bind .typeRef fun _ => .bind (.directives _) fun _ => .pure _

theorem enumValue : Uniform Grammar.enumValue := by
  have rest : Uniform (do
      let named ← Rule.name
      let _ ← Grammar.directives true
      return named) :=
    .bind .name fun _ => .bind (.directives _) fun _ => .pure _
  exact .bind .description fun _ => .bind .current fun _ =>
    .ite (.bind (.fail _) fun _ => rest) rest

theorem interfaces : Uniform Grammar.interfaces :=
  .bind (.skipKeyword _) fun _ => .ite (.separated _ .name) (.pure _)

theorem typeBody (kind : TypeKind) : Uniform (Grammar.typeBody kind) := by
  cases kind with
  | object | interface =>
      exact .bind .interfaces fun _ => .bind (.directives _) fun _ =>
        .bind (.optionalList _ .field _) fun _ => .pure _
  | input =>
      exact .bind (.directives _) fun _ => .bind (.optionalList _ .inputValue _) fun _ => .pure _
  | scalar => exact .bind (.directives _) fun _ => .pure _
  | enum =>
      exact .bind (.directives _) fun _ => .bind (.optionalList _ .enumValue _) fun _ => .pure _
  | union =>
      exact .bind (.directives _) fun _ => .bind (.skip _) fun _ =>
        .ite (.bind (.separated _ .name) fun _ => .pure _) (.bind (.pure _) fun _ => .pure _)

theorem typeDefinition (kind : TypeKind) : Uniform (Grammar.typeDefinition kind) :=
  .bind .description fun _ => .bind (.keyword _) fun _ => .bind .name fun _ =>
    .bind (.typeBody kind) fun (_, _) => .pure _

theorem typeExtension (kind : TypeKind) : Uniform (Grammar.typeExtension kind) :=
  .bind (.keyword _) fun _ => .bind (.keyword _) fun _ => .bind .name fun _ =>
    .bind (.typeBody kind) fun (_, _) => .ite (.bind .unexpected fun _ => .pure _) (.pure _)

theorem rootType : Uniform Grammar.rootType :=
  .bind .operationType fun _ => .bind (.expect _) fun _ => .bind .name fun _ => .pure _

theorem schemaDefinition : Uniform Grammar.schemaDefinition :=
  .bind .description fun _ => .bind (.keyword _) fun _ => .bind (.directives _) fun _ =>
    .bind (.bracketed _ .rootType _) fun _ => .pure _

theorem schemaExtension : Uniform Grammar.schemaExtension :=
  .bind (.keyword _) fun _ => .bind (.keyword _) fun _ => .bind (.directives _) fun _ =>
    .bind (.optionalList _ .rootType _) fun _ =>
      .ite (.bind .unexpected fun _ => .pure _) (.pure _)

theorem directiveLocation : Uniform Grammar.directiveLocation :=
  .bind .position fun _ => .bind .name fun _ => .ite (.failAt _ _) (.pure _)

theorem directiveDefinition : Uniform Grammar.directiveDefinition :=
  .bind .description fun _ => .bind (.keyword _) fun _ => .bind (.expect _) fun _ =>
    .bind .name fun _ => .bind (.optionalList _ .inputValue _) fun _ =>
      .bind (.skipKeyword _) fun _ => .bind (.keyword _) fun _ =>
        .bind (.separated _ .directiveLocation) fun _ => .pure _

theorem of_keyword {word : String} {rule : Rule Definition}
    (chosen : Grammar.definitionOfKeyword word = some rule) : Uniform rule := by
  unfold Grammar.definitionOfKeyword at chosen
  split at chosen
  · cases chosen
    exact schemaDefinition
  · cases chosen
    exact directiveDefinition
  · cases chosen
    exact operation
  · cases chosen
    exact operation
  · cases chosen
    exact operation
  · cases chosen
    exact fragment
  · obtain ⟨kind, _, rfl⟩ := Option.map_eq_some_iff.mp chosen
    exact typeDefinition kind

theorem extension : Uniform Grammar.extension := by
  refine .bind .lookahead fun (found, place) => ?_
  dsimp only
  split
  · rename_i rule chosen
    split at chosen
    · split at chosen
      · cases chosen
        exact schemaExtension
      · obtain ⟨kind, _, rfl⟩ := Option.map_eq_some_iff.mp chosen
        exact typeExtension kind
    · cases chosen
  · exact .failAt _ _

theorem definition : Uniform Grammar.definition := by
  refine .bind .current fun first => .ite ?_ ?_
  · exact .bind .selectionSet fun _ => .pure _
  · -- Either way the keyword decides, which stands behind a description if there is one.
    refine .ite (.bind .lookahead ?_) (.bind .position fun _ => .bind (.pure _) ?_)
    all_goals
      rintro ⟨found, place⟩
      dsimp only
      split
      · split
        · rename_i rule chosen
          exact of_keyword chosen
        · exact .ite (.fail _) (.ite .extension .unexpected)
      · exact .ite (.fail _) (.failAt _ _)

theorem document : Uniform Grammar.document := by
  refine .nested fun _ more => .bind .definition fun _ => .bind .current fun _ => ?_
  split
  · exact .pure _
  · exact .bind more fun _ => .pure _

end Definitions

end Rule.Uniform

open Text

theorem Rule.Uniform.run {α : Type} {rule : Rule α} (uniform : Uniform rule) (source : String) :
    Matching Eq (rule.run source) (rule.run (String.ofList (unifyNewlines source.toList))) := by
  have same := tokensAt_unify source.toList Position.start
  unfold Rule.run tokens
  rw [String.toList_ofList]
  generalize tokensAt source.toList Position.start = first at same
  generalize tokensAt (unifyNewlines source.toList) Position.start = second at same
  cases same with
  | fault place => exact .error place
  | finish position =>
      exact (uniform _ _ (.finish position)).map fun _ _ same => same.1
  | token lexeme position rest =>
      exact (uniform _ _ (.token lexeme position rest)).map fun _ _ same => same.1

/-- The document of a text does not depend on how its lines end. -/
theorem readDocument_unify (source : String) :
    Matching Eq (readDocument source)
      (readDocument (String.ofList (unifyNewlines source.toList))) :=
  Rule.Uniform.document.run source

end SchemaClasses.Sdl
