import SchemaClasses.Proofs.BuiltModule

/-!
Which documents are refused, and for which argument. A construction of several parts is
refused for the first part that is, so the refusal of a document can be read off the
arguments of its fields in document order. No argument is refused unless only built-in
scalars are wanted, and apart from the refusal that wish changes nothing.
-/

namespace SchemaClasses.Build

open Schema Naming Output

section Recorded

namespace Recorded

variable {α β : Type}

def refusal? (construction : Recorded α) : Option Refusal :=
  match construction.outcome with
  | .error refusal => some refusal
  | .ok _ => none

theorem refusal?_eq_some_iff {construction : Recorded α} {refusal : Refusal} :
    construction.refusal? = some refusal ↔ construction.outcome = .error refusal := by
  unfold refusal?
  cases construction.outcome <;> simp

@[simp] theorem refusal?_ok (notes : List Note) (value : α) :
    (⟨notes, .ok value⟩ : Recorded α).refusal? = none := rfl

/-- What comes later is refused only if what comes first is not. -/
theorem refusal?_bind {first : Recorded α} {next : α → Recorded β} (later : Option Refusal)
    (after : ∀ value, (next value).refusal? = later) :
    (first >>= next).refusal? = first.refusal?.or later := by
  obtain ⟨notes, outcome⟩ := first
  cases outcome with
  | error refusal => rfl
  | ok value => exact after value

theorem refusal?_bind_pure (first : Recorded α) (f : α → β) :
    (first >>= fun value => pure (f value)).refusal? = first.refusal? :=
  (refusal?_bind none fun _ => rfl).trans Option.or_none

theorem refusal?_each (construct : α → Recorded β) (items : List α) :
    (each construct items).refusal? = items.findSome? fun item => (construct item).refusal? := by
  induction items with
  | nil => rfl
  | cons item rest ih =>
      refine (refusal?_bind (rest.findSome? fun item => (construct item).refusal?) ?_).trans ?_
      · intro value
        exact (refusal?_bind_pure _ _).trans ih
      · rw [List.findSome?_cons]
        cases (construct item).refusal? <;> rfl

end Recorded

end Recorded

section Arguments

theorem innermost_map {A B : Type} (f : A → B) (type : TypeExpr A) :
    (type.map f).innermost = f type.innermost := by
  induction type with
  | leaf value => rfl
  | list item ih => exact ih
  | nonNull item ih => exact ih

def argumentRefusal (settings : Settings) (field : String) (argument : InputValue) :
    Option Refusal :=
  if settings.scalarArgumentsOnly && !isBuiltinScalar argument.type.innermost.text then
    some (.unsupportedArgument field argument.name.text argument.type.innermost.text)
  else none

theorem checkArgument_refusal (settings : Settings) (field : String) (argument : InputValue) :
    (Recorded.ofExcept (checkArgument settings field argument)).refusal? =
      argumentRefusal settings field argument := by
  have type : namedType (TypeRef.tree argument.type) = .ok argument.type.innermost.text := by
    rw [namedType, TypeRef.tree, innermost_map]
    rfl
  cases only : settings.scalarArgumentsOnly with
  | false => simp [checkArgument, argumentRefusal, only, pure, Except.pure]
  | true =>
      cases builtin : isBuiltinScalar argument.type.innermost.text with
      | false =>
          simp only [checkArgument, type, argumentRefusal, only, builtin, bind, Except.bind]
          rfl
      | true =>
          simp only [checkArgument, type, argumentRefusal, only, builtin, bind, Except.bind]
          rfl

/-- The type of a field or argument that was read from a schema is never malformed. -/
theorem declareType_refusal (type : TypeRef) (keywords container : String) :
    (declareType (TypeRef.tree type) keywords container).refusal? = none := by
  have inner : ∀ item : TypeRef, (resolveType (TypeRef.tree item)).refusal? = none := by
    intro item
    rw [resolveType_tree, Recorded.refusal?_ok]
  cases type with
  | leaf name =>
      simp only [TypeRef.tree, TypeExpr.map, declareType]
      split <;> rfl
  | list item => exact (Recorded.refusal?_bind_pure _ _).trans (inner item)
  | nonNull item => exact (Recorded.refusal?_bind_pure _ _).trans (inner item)

theorem argumentKeywords_refusal (settings : Settings) (field : String) (reserved : List String)
    (arguments : List InputValue) (mapped : Entries String) :
    (argumentKeywords settings field reserved arguments mapped).refusal? =
      arguments.findSome? (argumentRefusal settings field) := by
  induction arguments generalizing mapped with
  | nil => rfl
  | cons argument rest ih =>
      -- The check comes first; of either declaration only the arguments after it are refused.
      refine (Recorded.refusal?_bind (rest.findSome? (argumentRefusal settings field)) ?_).trans ?_
      · intro _
        split
        · rename_i collides
          rw [mappedDeclaration_eq settings reserved argument collides]
          exact Recorded.refusal?_bind _ fun _ => ih _
        · have declared := declareType_refusal argument.type
            (renderKeywords (descriptionKeyword settings argument.description)) "Argument"
          refine (Recorded.refusal?_bind _ fun _ =>
            (Recorded.refusal?_bind_pure _ _).trans (ih _)).trans ?_
          rw [argumentDeclaration, declared, Option.none_or]
      · rw [checkArgument_refusal, List.findSome?_cons]
        cases argumentRefusal settings field argument <;> rfl

theorem Member.toAttribute_refusal (settings : Settings) (member : Member) :
    (member.toAttribute settings).refusal? =
      member.arguments.findSome? (argumentRefusal settings member.name) := by
  refine (Recorded.refusal?_bind none ?_).trans ?_
  · intro keywords
    exact (Recorded.refusal?_bind_pure _ _).trans (declareType_refusal _ _ _)
  · rw [Option.or_none]
    exact (Recorded.refusal?_bind_pure _ _).trans (argumentKeywords_refusal _ _ _ _ _)

end Arguments

section Documents

/-- The fields whose arguments are declared. -/
def argumentFields : Definition → List Field
  | .type ⟨_, _, .object _ fields⟩ => fields
  | .type ⟨_, _, .interface _ fields⟩ => fields
  | _ => []

/-- The arguments whose innermost type is not a built-in scalar: the names of the field, of
the argument and of that type, in document order. -/
def userTypedArguments (document : Document) : List (String × String × String) :=
  document.flatMap fun definition => (argumentFields definition).flatMap fun field =>
    field.arguments.filterMap fun argument =>
      let type := argument.type.innermost.text
      if isBuiltinScalar type then none else some (field.name.text, argument.name.text, type)

theorem attributesOf_refusal (settings : Settings) (body : TypeBody) :
    (attributesOf settings body).refusal? =
      (members body).findSome? fun member =>
        member.arguments.findSome? (argumentRefusal settings member.name) := by
  have each := Recorded.refusal?_each (Member.toAttribute settings) (members body)
  simp only [Member.toAttribute_refusal] at each
  cases body with
  | enum values => rfl
  | _ => exact each

theorem declare_refusal (settings : Settings) (definition : Definition) :
    (declare settings definition).refusal? =
      (argumentFields definition).findSome? fun field =>
        field.arguments.findSome? (argumentRefusal settings field.name.text) := by
  cases definition with
  | type known =>
      refine (Recorded.refusal?_bind_pure _ _).trans ?_
      refine (Recorded.refusal?_bind_pure _ _).trans ?_
      rw [attributesOf_refusal]
      obtain ⟨name, description, body⟩ := known
      cases body with
      | object interfaces fields => exact List.findSome?_map
      | interface interfaces fields => exact List.findSome?_map
      | input fields =>
          -- Fields of input types have no arguments.
          refine List.findSome?_eq_none_iff.mpr fun member listed => ?_
          obtain ⟨field, _, rfl⟩ := List.mem_map.mp listed
          rfl
      | _ => rfl
  | _ => rfl

/-- A document is refused for its first argument of another than a built-in scalar type. -/
theorem declareAll_refusal (settings : Settings) (document : Document) :
    (declareAll settings document).refusal? =
      if settings.scalarArgumentsOnly then
        (userTypedArguments document).head?.map fun (field, argument, type) =>
          .unsupportedArgument field argument type
      else none := by
  rw [declareAll, Recorded.refusal?_each]
  simp only [declare_refusal]
  cases only : settings.scalarArgumentsOnly with
  | false => simp [argumentRefusal, only]
  | true =>
      have same : ∀ field, argumentRefusal settings field = fun argument =>
          (if isBuiltinScalar argument.type.innermost.text then none
            else some (field, argument.name.text, argument.type.innermost.text)).map
              fun (field, argument, type) => .unsupportedArgument field argument type := by
        intro field
        funext argument
        cases builtin : isBuiltinScalar argument.type.innermost.text <;>
          simp [argumentRefusal, only, builtin]
      simp only [userTypedArguments, List.head?_flatMap, List.head?_filterMap, List.map_findSome?,
        Function.comp_def, same, if_true]

theorem buildModule_error_iff {settings : Settings} {document : Document} {refusal : Refusal} :
    buildModule settings document = .error refusal ↔
      (declareAll settings document).refusal? = some refusal := by
  rw [Recorded.refusal?_eq_some_iff]
  cases outcome : (declareAll settings document).outcome <;>
    simp [buildModule, outcome, bind, Except.bind, pure, Except.pure]

theorem exists_buildModule_iff {settings : Settings} {document : Document} :
    (∃ built, buildModule settings document = .ok built) ↔
      (declareAll settings document).refusal? = none := by
  unfold Recorded.refusal?
  cases outcome : (declareAll settings document).outcome <;>
    simp [buildModule, outcome, bind, Except.bind, pure, Except.pure]

/-- Where no argument has a type of the schema, the wish for built-in scalars changes nothing;
otherwise the first of these arguments is refused. Without the wish every module is built. -/
theorem buildModule_scalarArgumentsOnly (settings : Settings) (document : Document) :
    buildModule { settings with scalarArgumentsOnly := true } document =
      (match (userTypedArguments document).head? with
        | some (field, argument, type) => .error (.unsupportedArgument field argument type)
        | none => buildModule { settings with scalarArgumentsOnly := false } document) ∧
    ∃ built, buildModule { settings with scalarArgumentsOnly := false } document = .ok built := by
  have any : buildModule { settings with scalarArgumentsOnly := false } document =
      .ok (writtenModule { settings with scalarArgumentsOnly := false } document) :=
    buildModule_eq fun _ _ member _ => member.admitted_of_open rfl
  have refusal := declareAll_refusal { settings with scalarArgumentsOnly := true } document
  refine ⟨?_, _, any⟩
  cases first : (userTypedArguments document).head? with
  | some offender =>
      rw [first] at refusal
      exact buildModule_error_iff.mpr refusal
  | none =>
      rw [first] at refusal
      obtain ⟨built, made⟩ := exists_buildModule_iff.mpr refusal
      obtain ⟨_, rfl⟩ := buildModule_ok_iff.mp made
      exact made.trans any.symm

end Documents

end SchemaClasses.Build
