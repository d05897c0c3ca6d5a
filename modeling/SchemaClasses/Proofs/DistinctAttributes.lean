import Mathlib.Data.List.Nodup
import SchemaClasses.Proofs.BuiltModule

/-!
Whether the attributes of a class have names of their own. An attribute that is assigned twice
keeps only its last value, so members whose names fall together are lost. Names fall together
if they are the same in the form in which they are escaped, or if one is a keyword and the other
is what the keyword is escaped to. Names that come back from their attributes never do.
-/

namespace SchemaClasses.Naming

section Escaping

/-- The names are the same, or one is a keyword and the other its escaped form. -/
def FallTogether (first second : String) : Prop :=
  first = second ∨ (isKeyword first = true ∧ second = first ++ "_") ∨
    (isKeyword second = true ∧ first = second ++ "_")

instance (first second : String) : Decidable (FallTogether first second) :=
  inferInstanceAs (Decidable (_ ∨ _ ∨ _))

theorem not_keyword_of_escaped {name : String} (keyword : isKeyword name = true) :
    isKeyword (name ++ "_") = false := by
  have free := safeIdentifier_free name
  rwa [safeIdentifier, if_pos keyword] at free

theorem safeIdentifier_eq_iff (first second : String) :
    safeIdentifier first = safeIdentifier second ↔ FallTogether first second := by
  unfold safeIdentifier FallTogether
  cases left : isKeyword first with
  | true =>
      cases right : isKeyword second with
      | true =>
          -- No keyword is the escaped form of another.
          have apart : second ≠ first ++ "_" := by
            rintro rfl
            simp [not_keyword_of_escaped left] at right
          have reversed : first ≠ second ++ "_" := by
            rintro rfl
            simp [not_keyword_of_escaped right] at left
          simp [apart, reversed]
      | false =>
          have different : first ≠ second := by
            rintro rfl
            simp [left] at right
          simp [different, eq_comm]
  | false =>
      cases right : isKeyword second with
      | true =>
          have different : first ≠ second := by
            rintro rfl
            simp [right] at left
          simp [different]
      | false => simp

end Escaping

section Attributes

/-- Two names that come back from their attributes in camel case have attributes of their own. -/
theorem attributeName_injOn {first second : String} (left : needsExplicitName first = false)
    (right : needsExplicitName second = false) (same : attributeName first = attributeName second) :
    first = second := by
  calc first = camelCase (attributeName first) := (camelCase_attributeName left).symm
    _ = camelCase (attributeName second) := by rw [same]
    _ = second := camelCase_attributeName right

end Attributes

end SchemaClasses.Naming

namespace SchemaClasses.Build

open Schema Naming Output

section Bindings

/-- What the body of a class binds: a later assignment to the same name replaces an earlier one. -/
def bindings (attributes : List Attribute) : Entries String :=
  Entries.ofPairs (attributes.map fun assignment => (assignment.name, assignment.value))

/-- Every attribute is bound to its own value. -/
def AllKept (attributes : List Attribute) : Prop :=
  bindings attributes = attributes.map fun assignment => (assignment.name, assignment.value)

theorem allKept_iff (attributes : List Attribute) :
    AllKept attributes ↔ (attributes.map Attribute.name).Nodup := by
  have names : (attributes.map fun assignment => (assignment.name, assignment.value)).map
      Prod.fst = attributes.map Attribute.name := by
    simp [Function.comp_def]
  rw [← names]
  constructor
  · intro kept
    rw [← kept]
    exact Entries.keys_ofPairs_nodup _
  · exact Entries.ofPairs_eq

end Bindings

section Classes

/-- The names from which the attributes of a type are made. -/
def sourceNames (body : TypeBody) : List String :=
  (members body).map Member.name ++ (enumValues body).map Name.text

/-- The form of a name before it is escaped: enum values are left as they are. -/
def spelling : TypeBody → String → String
  | .enum _, name => name
  | _, name => snakeCase name

theorem attributeNames_eq (settings : Settings) (body : TypeBody) :
    (writtenAttributes settings body).map Attribute.name =
      (sourceNames body).map fun name => safeIdentifier (spelling body name) := by
  cases body with
  | enum values =>
      have numbered : values.zipIdx.map (fun entry => safeIdentifier entry.1.text) =
          (values.zipIdx.map Prod.fst).map fun value => safeIdentifier value.text := by
        rw [List.map_map]
        rfl
      rw [List.zipIdx_map_fst] at numbered
      simpa [writtenAttributes, enumMembers, sourceNames, members, enumValues, spelling,
        Function.comp_def] using numbered
  | _ =>
      simp [writtenAttributes, writtenAttribute, sourceNames, enumValues, spelling,
        Function.comp_def, attributeName]

/-- No two names of the type fall together. -/
def NamesApart (body : TypeBody) : Prop :=
  ∀ first ∈ sourceNames body, ∀ second ∈ sourceNames body, first ≠ second →
    ¬ FallTogether (spelling body first) (spelling body second)

instance (body : TypeBody) : Decidable (NamesApart body) :=
  inferInstanceAs (Decidable (∀ first ∈ sourceNames body, _))

theorem attributeNames_nodup_iff (settings : Settings) {body : TypeBody}
    (distinct : (sourceNames body).Nodup) :
    ((writtenAttributes settings body).map Attribute.name).Nodup ↔ NamesApart body := by
  rw [attributeNames_eq, List.nodup_map_iff_inj_on distinct]
  simp only [safeIdentifier_eq_iff, NamesApart]
  constructor
  · intro same first listed second other different together
    exact different (same first listed second other together)
  · intro apart first listed second other together
    by_contra different
    exact apart first listed second other different together

/-- Names that are close to each other, and a keyword. -/
def closeNames : TypeDefinition :=
  ⟨named "Close", none, .object []
    [⟨named "fooBar", none, [], .leaf (named "Int")⟩,
      ⟨named "foo_Bar", none, [], .leaf (named "Int")⟩,
      ⟨named "class", none, [], .leaf (named "Int")⟩,
      ⟨named "class__", none, [], .leaf (named "Int")⟩]⟩

/-- Two fields of one attribute, in camel case and in snake case. -/
def twoSpellings : TypeDefinition :=
  ⟨named "Two", none, .object []
    [⟨named "fooBar", none, [], .leaf (named "Int")⟩,
      ⟨named "foo_bar", none, [], .leaf (named "String")⟩]⟩

/-- A keyword, and its escaped form. -/
def twoValues : TypeDefinition :=
  ⟨named "From", none, .enum [named "from", named "from_"]⟩

end Classes

end SchemaClasses.Build
