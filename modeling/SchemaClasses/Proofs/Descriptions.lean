import SchemaClasses.Build.Declare
import SchemaClasses.Proofs.Names

/-!
Descriptions and how a module depends on them. A description that is written takes the
keyword `description`, so an argument of that name is passed in another form, with other
symbols. All of this follows what the settings make of the description, so a document may be
given other descriptions wherever other settings make the same of them.
-/

namespace SchemaClasses.Schema

section Documents

/-! Other descriptions for types, their members and the arguments of these. -/

def InputValue.redescribe (change : Option String → Option String) (value : InputValue) :
    InputValue :=
  { value with description := change value.description }

def Field.redescribe (change : Option String → Option String) (field : Field) : Field :=
  { field with
    description := change field.description
    arguments := field.arguments.map (InputValue.redescribe change) }

def TypeBody.redescribe (change : Option String → Option String) : TypeBody → TypeBody
  | .object interfaces fields => .object interfaces (fields.map (Field.redescribe change))
  | .interface interfaces fields => .interface interfaces (fields.map (Field.redescribe change))
  | .input fields => .input (fields.map (InputValue.redescribe change))
  | body => body

def Definition.redescribe (change : Option String → Option String) : Definition → Definition
  | .type definition =>
      .type {
        name := definition.name
        description := change definition.description
        body := definition.body.redescribe change }
  | definition => definition

/-- The document without any description of a type, a member or an argument. -/
def undescribed (document : Document) : Document :=
  document.map (Definition.redescribe fun _ => none)

def dropEmpty : Option String → Option String
  | some "" => none
  | description => description

/-- The document without the descriptions that are empty. -/
def withoutEmptyDescriptions (document : Document) : Document :=
  document.map (Definition.redescribe dropEmpty)

theorem TypeBody.kind_redescribe (change : Option String → Option String) (body : TypeBody) :
    (body.redescribe change).kind = body.kind := by
  cases body <;> rfl

end Documents

end SchemaClasses.Schema

namespace SchemaClasses.Build

open Schema Naming Output

section Constructions

/-- The first settings make of every description what the second make of the changed one, and
agree with them in all that is not about descriptions. -/
structure Settings.Matches (first second : Settings) (change : Option String → Option String) :
    Prop where
  framework : first.framework = second.framework
  wiring : first.wiring = second.wiring
  scalarArgumentsOnly : first.scalarArgumentsOnly = second.scalarArgumentsOnly
  described : ∀ description, first.described description = second.described (change description)

def Member.redescribe (change : Option String → Option String) : Member → Member
  | .field source => .field (source.redescribe change)
  | .input source => .input (source.redescribe change)

theorem members_redescribe (change : Option String → Option String) (body : TypeBody) :
    members (body.redescribe change) = (members body).map (Member.redescribe change) := by
  cases body <;> simp [TypeBody.redescribe, members, Member.redescribe, Function.comp_def]

theorem metaEntriesOf_redescribe (change : Option String → Option String) (body : TypeBody) :
    metaEntriesOf (body.redescribe change) = metaEntriesOf body := by
  cases body <;> rfl

theorem Recorded.each_map {α β γ : Type} (construct : β → Recorded γ) (f : α → β)
    (items : List α) :
    each construct (items.map f) = each (fun item => construct (f item)) items := by
  induction items with
  | nil => rfl
  | cons item rest ih => simp only [List.map_cons, each, ih]

variable {first second : Settings} {change : Option String → Option String}

theorem descriptionKeyword_redescribe (same : first.Matches second change)
    (description : Option String) :
    descriptionKeyword second (change description) = descriptionKeyword first description := by
  rw [descriptionKeyword, descriptionKeyword, same.described]

theorem checkArgument_redescribe (same : first.Matches second change) (field : String)
    (argument : InputValue) :
    checkArgument second field (argument.redescribe change) =
      checkArgument first field argument := by
  rw [checkArgument, checkArgument, same.scalarArgumentsOnly]
  rfl

/-- An argument keeps its name and type, so it goes the same way as before. -/
theorem argumentKeywords_redescribe (same : first.Matches second change) (field : String)
    (reserved : List String) (arguments : List InputValue) (mapped : Entries String) :
    argumentKeywords second field reserved (arguments.map (InputValue.redescribe change)) mapped =
      argumentKeywords first field reserved arguments mapped := by
  induction arguments generalizing mapped with
  | nil => rfl
  | cons argument rest ih =>
      have direct : argumentDeclaration second (argument.redescribe change) =
          argumentDeclaration first argument := by
        simp only [argumentDeclaration, InputValue.redescribe, descriptionKeyword_redescribe same]
      have through : mappedDeclaration second (argument.redescribe change) =
          mappedDeclaration first argument := by
        simp only [mappedDeclaration, InputValue.redescribe, descriptionKeyword_redescribe same]
      have name : (argument.redescribe change).name = argument.name := rfl
      simp only [List.map_cons, argumentKeywords, checkArgument_redescribe same, direct, through,
        name, ih]

namespace Member

theorem ownKeywords_redescribe (same : first.Matches second change) (member : Member) :
    (member.redescribe change).ownKeywords second = member.ownKeywords first := by
  cases member with
  | field source =>
      exact congrArg (nameKeyword source.name.text ++ ·) (descriptionKeyword_redescribe same _)
  | input source =>
      exact congrArg (nameKeyword source.name.text ++ ·) (descriptionKeyword_redescribe same _)

theorem arguments_redescribe (change : Option String → Option String) (member : Member) :
    (member.redescribe change).arguments =
      member.arguments.map (InputValue.redescribe change) := by
  cases member <;> rfl

/-- The names that the member's own keywords take are the same as before, and so is what
becomes of each argument next to them. -/
theorem toAttribute_redescribe (same : first.Matches second change) (member : Member) :
    (member.redescribe change).toAttribute second = member.toAttribute first := by
  have name : (member.redescribe change).name = member.name := by cases member <;> rfl
  have type : (member.redescribe change).type = member.type := by cases member <;> rfl
  have container : (member.redescribe change).container = member.container := by
    cases member <;> rfl
  simp only [toAttribute, keywords, name, type, container, ownKeywords_redescribe same,
    arguments_redescribe, argumentKeywords_redescribe same]

end Member

theorem attributesOf_redescribe (same : first.Matches second change) (body : TypeBody) :
    attributesOf second (body.redescribe change) = attributesOf first body := by
  have each : Recorded.each (Member.toAttribute second) (members (body.redescribe change)) =
      Recorded.each (Member.toAttribute first) (members body) := by
    simp only [members_redescribe, Recorded.each_map, Member.toAttribute_redescribe same]
  cases body with
  | enum values => rfl
  | _ => exact each

theorem declare_redescribe (same : first.Matches second change) (definition : Definition) :
    declare second (definition.redescribe change) = declare first definition := by
  cases definition with
  | type known =>
      simp only [Definition.redescribe, declare, declareClass, TypeBody.kind_redescribe,
        metaEntriesOf_redescribe, attributesOf_redescribe same, same.described]
  | _ => rfl

theorem buildModule_redescribe (same : first.Matches second change) (document : Document) :
    buildModule second (document.map (Definition.redescribe change)) =
      buildModule first document := by
  have all : declareAll second (document.map (Definition.redescribe change)) =
      declareAll first document := by
    simp only [declareAll, Recorded.each_map, declare_redescribe same]
  have notes : wiringNotes second = wiringNotes first := by
    rw [wiringNotes, wiringNotes, same.wiring]
  simp only [buildModule, finalContext, all, notes, same.framework, same.wiring]

end Constructions

section Settings

theorem matches_undescribed (settings : Settings) :
    Settings.Matches { settings with descriptions := false }
      { settings with descriptions := true } fun _ => none where
  framework := rfl
  wiring := rfl
  scalarArgumentsOnly := rfl
  described _ := rfl

theorem matches_dropEmpty (settings : Settings) : settings.Matches settings dropEmpty where
  framework := rfl
  wiring := rfl
  scalarArgumentsOnly := rfl
  described description := by
    unfold dropEmpty Settings.described
    split
    · split <;> rfl
    · rfl

/-- To turn descriptions off is to build from a document without them. An empty description
is as good as none: documents that differ only in empty descriptions make the same module, or
are refused for the same reason. -/
theorem buildModule_undescribed (settings : Settings) (document : Document) :
    buildModule { settings with descriptions := false } document =
      buildModule { settings with descriptions := true } (undescribed document) ∧
    ∀ other : Document, withoutEmptyDescriptions other = withoutEmptyDescriptions document →
      buildModule settings other = buildModule settings document := by
  constructor
  · exact (buildModule_redescribe (matches_undescribed settings) document).symm
  · intro other alike
    calc buildModule settings other
        = buildModule settings (withoutEmptyDescriptions other) :=
          (buildModule_redescribe (matches_dropEmpty settings) other).symm
      _ = buildModule settings (withoutEmptyDescriptions document) := by rw [alike]
      _ = buildModule settings document :=
          buildModule_redescribe (matches_dropEmpty settings) document

/-- The argument `description` cannot be a keyword next to the description of its field. -/
def remarkedSchema (remark : Option String) : Document :=
  [.type ⟨named "Query", none, .object []
    [⟨named "find", some "By text.",
      [⟨named "description", none, .leaf (named "String")⟩,
        ⟨named "page", remark, .leaf (named "Int")⟩],
      .leaf (named "Int")⟩]⟩]

def attributeValues (built : Except Refusal ClassModule) : List String :=
  (built.toOption.toList.flatMap ClassModule.classes).flatMap fun declaration =>
    declaration.attributes.map Attribute.value

theorem undescribed_remarkedSchema :
    attributeValues (buildModule {} (remarkedSchema (some ""))) =
      ["Int(description='By text.', page=Int(), args=\x7b'description': Argument(String)\x7d)"] ∧
    buildModule { descriptions := false } (remarkedSchema (some "")) =
      buildModule {} (undescribed (remarkedSchema (some ""))) ∧
    attributeValues (buildModule {} (undescribed (remarkedSchema (some "")))) =
      ["Int(description=String(), page=Int())"] ∧
    remarkedSchema (some "") ≠ remarkedSchema none ∧
    buildModule {} (remarkedSchema (some "")) = buildModule {} (remarkedSchema none) := by
  have off := (buildModule_undescribed {} (remarkedSchema (some ""))).1
  have empty := (buildModule_undescribed {} (remarkedSchema none)).2 (remarkedSchema (some ""))
    (by decide +kernel)
  exact ⟨by decide +kernel, off, by decide +kernel, by decide +kernel, empty⟩

end Settings

end SchemaClasses.Build
