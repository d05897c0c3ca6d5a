import SchemaClasses.Proofs.UniqueReading

/-!
Null characters in a written module. All but the descriptions is made of names, numbers and a
few signs, and neither quoting nor escaping takes a null character away. So the text of a
module is free of them exactly if the descriptions that are written are.
-/

namespace SchemaClasses.Build

open Schema Naming Check Output

theorem noNull_spelled {name : String} (spelled : Spelled name) : NoNull name := by
  intro inside
  exact absurd (spelled.parts _ inside) (by decide)

section Phrases

theorem noNull_keyword {entry : String × Phrase} (spelled : Spelled entry.1) :
    NoNull (Phrase.keyword entry).text ↔ NoNull entry.2.text := by
  have equals : NoNull "=" := by decide
  simp [Phrase.keyword, noNull_spelled spelled, equals]

theorem noNull_call {head : String} (spelled : Spelled head) (arguments : List Phrase) :
    NoNull (Phrase.call head arguments).text ↔ ∀ argument ∈ arguments, NoNull argument.text := by
  have opener : NoNull "(" := by decide
  have closer : NoNull ")" := by decide
  have comma : NoNull ", " := by decide
  simp [Phrase.call, noNull_spelled spelled, opener, closer, noNull_intercalate comma]

theorem noNull_mapping {entries : Entries Phrase}
    (spelled : ∀ entry ∈ entries, Spelled entry.1) :
    NoNull (Phrase.mapping entries).text ↔ ∀ entry ∈ entries, NoNull entry.2.text := by
  have opener : NoNull "\x7b" := by decide
  have closer : NoNull "\x7d" := by decide
  have comma : NoNull ", " := by decide
  have colon : NoNull ": " := by decide
  simp only [Phrase.mapping, Literal.mapping, noNull_append, noNull_intercalate comma, opener,
    closer, true_and, and_true, List.map_map, List.forall_mem_map, Function.comp_apply,
    noNull_quoted, colon]
  exact forall₂_congr fun entry listed =>
    and_iff_right (noNull_spelled (spelled entry listed))

theorem noNull_type (type : TypeRef) : NoNull (typePhrase type).text := by
  induction type with
  | leaf name => exact noNull_spelled name.spelled
  | list item ih => simpa [typePhrase, noNull_call (by decide : Spelled "List")] using ih
  | nonNull item ih => simpa [typePhrase, noNull_call (by decide : Spelled "NonNull")] using ih

theorem Declarator.noNull_phrase {declarator : Declarator} {keywords : List (String × Phrase)}
    (head : Spelled declarator.head) (spelled : ∀ keyword ∈ keywords, Spelled keyword.1) :
    NoNull (declarator.phrase keywords).text ↔ ∀ keyword ∈ keywords, NoNull keyword.2.text := by
  rw [Declarator.phrase, noNull_call head, List.forall_mem_append, List.forall_mem_map,
    List.forall_mem_map]
  exact (and_iff_right fun type _ => noNull_type type).trans
    (forall₂_congr fun keyword listed => noNull_keyword (spelled keyword listed))

theorem noNull_descriptions (settings : Settings) (description : Option String) :
    (∀ entry ∈ descriptionPhrases settings description, NoNull entry.2.text) ↔
      ∀ text ∈ settings.described description, NoNull text := by
  simp [descriptionPhrases, Phrase.quoted]

theorem noNull_argument (settings : Settings) (reserved : List String) (argument : InputValue) :
    NoNull (argumentPhrase settings reserved argument).text ↔
      ∀ text ∈ settings.described argument.description, NoNull text := by
  rw [argumentPhrase, Declarator.noNull_phrase (argument_head_spelled reserved argument),
    noNull_descriptions]
  intro entry listed
  obtain ⟨text, _, rfl⟩ := descriptionPhrases_spec listed
  exact ownWords_spelled "description" (by decide)

end Phrases

section Members

namespace Member

/-- The arguments that are passed as keywords, and of those in the mapping the last under
each name. -/
def writtenArguments (settings : Settings) (member : Member) : List InputValue :=
  member.direct settings ++
    (Entries.ofPairs ((member.mapped settings).map fun argument =>
      (argument.name.text, argument))).map Prod.snd

def writtenDescriptions (settings : Settings) (member : Member) : List String :=
  (settings.described member.description).toList ++
    (member.writtenArguments settings).filterMap fun argument =>
      settings.described argument.description

theorem mappedEntries_eq (settings : Settings) (member : Member) :
    Entries.ofPairs ((member.mapped settings).map
        (argumentEntry settings (member.reserved settings))) =
      (Entries.ofPairs ((member.mapped settings).map fun argument =>
        (argument.name.text, argument))).map fun entry =>
          (entry.1, argumentPhrase settings (member.reserved settings) entry.2) := by
  rw [← Entries.ofPairs_map, List.map_map]
  rfl

theorem noNull_args {entries : Entries Phrase} (spelled : ∀ entry ∈ entries, Spelled entry.1) :
    (∀ entry ∈ argsPhrases entries, NoNull entry.2.text) ↔
      ∀ entry ∈ entries, NoNull entry.2.text := by
  unfold argsPhrases
  split
  · rename_i empty
    simp [List.isEmpty_iff.mp empty]
  · rw [List.forall_mem_singleton, noNull_mapping spelled]

theorem noNull_phrase (settings : Settings) (member : Member) :
    NoNull (member.phrase settings).text ↔
      ∀ text ∈ member.writtenDescriptions settings, NoNull text := by
  have named : ∀ name ∈ member.explicitName, NoNull (Phrase.quoted name).text := by
    intro name given
    rw [Phrase.quoted, noNull_quoted, explicitName_eq given]
    exact noNull_spelled member.name_spelled
  have spelled : ∀ entry ∈ Entries.ofPairs ((member.mapped settings).map
      (argumentEntry settings (member.reserved settings))), Spelled entry.1 := by
    intro entry listed
    obtain ⟨argument, _, rfl⟩ := List.mem_map.mp (Entries.mem_ofPairs listed)
    exact argument.name.spelled
  have mapped : (∀ entry ∈ argsPhrases (Entries.ofPairs ((member.mapped settings).map
      (argumentEntry settings (member.reserved settings)))), NoNull entry.2.text) ↔
        ∀ argument ∈ (Entries.ofPairs ((member.mapped settings).map fun argument =>
          (argument.name.text, argument))).map Prod.snd,
            ∀ text ∈ settings.described argument.description, NoNull text := by
    rw [noNull_args spelled, mappedEntries_eq]
    simp only [List.forall_mem_map, noNull_argument]
  have arguments : (∀ text ∈ (member.writtenArguments settings).filterMap fun argument =>
      settings.described argument.description, NoNull text) ↔
        ∀ argument ∈ member.writtenArguments settings,
          ∀ text ∈ settings.described argument.description, NoNull text := by
    simp only [List.mem_filterMap, Option.mem_def]
    grind
  rw [phrase, Declarator.noNull_phrase member.head_spelled fun _ => keywordPhrases_spelled,
    keywordPhrases, writtenDescriptions, List.forall_mem_append, List.forall_mem_append, mapped,
    List.forall_mem_append, arguments, writtenArguments, List.forall_mem_append, ownPhrases,
    List.forall_mem_append, noNull_descriptions, List.forall_mem_map]
  simp only [List.forall_mem_map, argumentEntry, noNull_argument, Option.mem_toList,
    Option.mem_def, and_assoc]
  exact and_iff_right named

end Member

end Members

section Modules

theorem noNull_numeral (n : Nat) : NoNull (toString n) := by
  intro inside
  exact absurd (Layout.numeral_digits n _ inside) (by decide)

theorem noNull_attributes (settings : Settings) (body : TypeBody) :
    (∀ assignment ∈ writtenAttributes settings body, NoNull assignment.value) ↔
      ∀ member ∈ members body, ∀ text ∈ member.writtenDescriptions settings, NoNull text := by
  have fields : (∀ assignment ∈ (members body).map (writtenAttribute settings),
      NoNull assignment.value) ↔
        ∀ member ∈ members body, ∀ text ∈ member.writtenDescriptions settings, NoNull text := by
    rw [List.forall_mem_map]
    exact forall₂_congr fun member _ => member.noNull_phrase settings
  cases body with
  | enum values =>
      refine iff_of_true ?_ (by simp [members])
      rw [writtenAttributes, enumMembers, List.forall_mem_map]
      exact fun numbered _ => noNull_numeral numbered.2
  | _ => exact fields

theorem noNull_tuple {names : List String} (spelled : ∀ name ∈ names, Spelled name) :
    NoNull (Literal.tuple names) := by
  have opener : NoNull "(" := by decide
  have closer : NoNull ")" := by decide
  have only : NoNull ", )" := by decide
  have comma : NoNull ", " := by decide
  have each : ∀ name ∈ names, NoNull name := fun name listed => noNull_spelled (spelled name listed)
  unfold Literal.tuple
  split
  · simpa [opener, only] using each
  · simpa [opener, closer, noNull_intercalate comma] using each

theorem noNull_metaText {entries : Entries (List String)} (attributes : List Attribute)
    (legible : ∀ entry ∈ entries, LegibleEntry entry) : NoNull (metaText entries attributes) := by
  have lines : ∀ entry ∈ entries, NoNull (metaLine entry) := by
    intro entry listed
    obtain ⟨key, _, names⟩ := legible entry listed
    have indent : NoNull "    " := by decide
    have equals : NoNull " = " := by decide
    have feed : NoNull "\n" := by decide
    simp [metaLine, noNull_spelled key, noNull_tuple names, indent, equals, feed]
  have opener : NoNull "  class Meta:\n" := by decide
  have gap : NoNull (if attributes.isEmpty then "" else "\n") := by split <;> decide
  unfold metaText
  split
  · decide
  · rw [noNull_append, noNull_append, noNull_join, List.forall_mem_map]
    exact ⟨⟨opener, lines⟩, gap⟩

theorem noNull_class {declaration : ClassDeclaration} (legible : Legible declaration) :
    NoNull declaration.render ↔
      (∀ text ∈ declaration.description, NoNull text) ∧
        ∀ assignment ∈ declaration.attributes, NoNull assignment.value := by
  have assignments : NoNull (String.join (declaration.attributes.map Attribute.render)) ↔
      ∀ assignment ∈ declaration.attributes, NoNull assignment.value := by
    rw [noNull_join, List.forall_mem_map]
    refine forall₂_congr fun assignment listed => ?_
    have name := noNull_spelled (legible.attributes assignment listed).1
    have indent : NoNull "  " := by decide
    have equals : NoNull " = " := by decide
    have feed : NoNull "\n" := by decide
    simp [Attribute.render, name, indent, equals, feed]
  have statement : NoNull "class " ∧ NoNull "(" ∧ NoNull "):\n" := by decide
  have empty : NoNull (if declaration.isEmpty then "  pass\n" else "") := by split <;> decide
  simp only [ClassDeclaration.render, noNull_append, statement, noNull_spelled legible.name,
    noNull_spelled legible.base, noNull_docstringText, noNull_metaText _ legible.entries,
    assignments, empty, true_and, and_true]

theorem noNull_rootText {keyword : String} {type : Option String} (spelled : Spelled keyword)
    (each : ∀ name ∈ type, Spelled name) : NoNull (rootText keyword type) := by
  have comma : NoNull ", " := by decide
  have equals : NoNull "=" := by decide
  unfold rootText
  cases shown : present type with
  | none => simp [NoNull]
  | some name =>
      have known := each name (Option.filter_eq_some_iff.mp shown).1
      simp [comma, equals, noNull_spelled spelled, noNull_spelled known]

theorem noNull_wiring {wiring : Wiring} (legible : LegibleWiring wiring) :
    NoNull wiring.render := by
  have opener : NoNull "\nschema = Schema(query=" := by decide
  have closer : NoNull ")\n" := by decide
  have mutation := noNull_rootText (by decide : Spelled "mutation") legible.mutation
  have subscription := noNull_rootText (by decide : Spelled "subscription") legible.subscription
  unfold Wiring.render
  rw [noNull_append, noNull_append, noNull_append, noNull_append]
  exact ⟨⟨⟨⟨opener, noNull_spelled legible.query⟩, mutation⟩, subscription⟩, closer⟩

theorem noNull_module {document : ClassModule} (framework : NoNull document.framework)
    (legible : LegibleModule document) :
    NoNull document.render ↔ ∀ declaration ∈ document.classes, NoNull declaration.render := by
  have comma : NoNull ", " := by decide
  have feed : NoNull "\n" := by decide
  have imports : NoNull (importText document.framework document.imports) := by
    have statement : NoNull "from " ∧ NoNull " import " ∧ NoNull "\n\n" := by decide
    have symbols : ∀ symbol ∈ document.imports, NoNull symbol :=
      fun symbol imported => noNull_spelled (legible.imports.2 symbol imported)
    simpa [importText, statement, framework, noNull_intercalate comma] using symbols
  have wiring : NoNull ((document.schema.map Wiring.render).getD "") := by
    cases given : document.schema with
    | none => decide
    | some wiring => exact noNull_wiring (legible.schema wiring given)
  have filled : document.classes.isEmpty = false := by simpa using legible.classes.1
  simp [ClassModule.render, filled, imports, wiring, noNull_intercalate feed]

/-- The texts of all descriptions that are written. -/
def writtenDescriptions (settings : Settings) (document : Document) : List String :=
  (typeDefinitions document).flatMap fun definition =>
    (settings.described definition.description).toList ++
      (members definition.body).flatMap (Member.writtenDescriptions settings)

/-- Only descriptions bring null characters into the text. -/
theorem noNull_writtenModule {settings : Settings} (framework : NoNull settings.framework)
    (document : Document) :
    NoNull (writtenModule settings document).render ↔
      ∀ text ∈ writtenDescriptions settings document, NoNull text := by
  by_cases filled : typeDefinitions document = []
  · refine iff_of_true ?_ (by simp [writtenDescriptions, filled])
    simp [writtenModule, filled, ClassModule.render, NoNull]
  · have each : ∀ definition : TypeDefinition,
        NoNull (writtenClass settings definition).render ↔
          ∀ text ∈ (settings.described definition.description).toList ++
            (members definition.body).flatMap (Member.writtenDescriptions settings),
              NoNull text := by
      intro definition
      rw [noNull_class (legible_class settings definition), List.forall_mem_append,
        List.forall_mem_flatMap]
      simp only [Option.mem_toList]
      exact and_congr_right' (noNull_attributes settings definition.body)
    rw [noNull_module framework (legible_module filled), writtenDescriptions,
      List.forall_mem_flatMap]
    simp only [writtenModule, List.forall_mem_map, each]

end Modules

end SchemaClasses.Build
