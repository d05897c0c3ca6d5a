import SchemaClasses.Generator
import SchemaClasses.Proofs.Compilation
import SchemaClasses.Proofs.PhraseCharacters

/-!
Well-formed schemas make modules that compile. Every value is read as one operand, so a
module is refused only for a name that it binds, and of those only attribute names can
still be `__debug__`.
-/

namespace SchemaClasses.Build

open Schema Naming Output Check Machine

section WellFormed

/-- A name that can be used in a module and be bound there. -/
def Bindable (name : String) : Prop :=
  isKeyword name = false ∧ name ≠ "__debug__"

instance (name : String) : Decidable (Bindable name) :=
  inferInstanceAs (Decidable (_ ∧ _))

def NullFree (description : Option String) : Prop :=
  ∀ text ∈ description, '\x00' ∉ text.toList

structure WellFormedMember (member : Member) : Prop where
  name : member.name ≠ "__debug__"
  description : NullFree member.description
  types : ∀ type ∈ member.types, Bindable type.innermost.text ∧ wrappers type ≤ 50
  arguments : ∀ argument ∈ member.arguments,
    argument.name.text ≠ "__debug__" ∧ NullFree argument.description
  distinct : (member.arguments.map fun argument => argument.name.text).Nodup

structure WellFormedType (definition : TypeDefinition) : Prop where
  name : Bindable definition.name.text
  description : NullFree definition.description
  related : ∀ type ∈ relatedTypes definition.body, Bindable type.text
  values : ∀ value ∈ enumValues definition.body, value.text ≠ "__debug__"
  members : ∀ member ∈ members definition.body, WellFormedMember member

/-- No keyword stands for a type, `__debug__` is used nowhere, arguments of a field have
names of their own, and types are wrapped at most fifty times. -/
structure WellFormed (document : Document) : Prop where
  types : ∀ definition ∈ typeDefinitions document, WellFormedType definition
  roots : ∀ type ∈ appointedTypes document, Bindable type.text

instance (description : Option String) : Decidable (NullFree description) :=
  inferInstanceAs (Decidable (∀ text ∈ description, _))

instance (member : Member) : Decidable (WellFormedMember member) :=
  decidable_of_iff (_ ∧ _ ∧ _ ∧ _ ∧ _)
    ⟨fun ⟨name, description, types, arguments, distinct⟩ =>
      ⟨name, description, types, arguments, distinct⟩,
    fun ⟨name, description, types, arguments, distinct⟩ =>
      ⟨name, description, types, arguments, distinct⟩⟩

instance (definition : TypeDefinition) : Decidable (WellFormedType definition) :=
  decidable_of_iff (_ ∧ _ ∧ _ ∧ _ ∧ _)
    ⟨fun ⟨name, description, related, values, members⟩ =>
      ⟨name, description, related, values, members⟩,
    fun ⟨name, description, related, values, members⟩ =>
      ⟨name, description, related, values, members⟩⟩

instance (document : Document) : Decidable (WellFormed document) :=
  decidable_of_iff (_ ∧ _)
    ⟨fun ⟨types, roots⟩ => ⟨types, roots⟩, fun ⟨types, roots⟩ => ⟨types, roots⟩⟩

end WellFormed

section Operands

/-! Values are read as operands. -/

theorem ownWords_free : ∀ word ∈ ownWords, isKeyword word = false := by decide

theorem reads_type {type : TypeRef} (free : isKeyword type.innermost.text = false) :
    Reads (typePhrase type).marks := by
  have wraps : ∀ (head : String) (inner : List Mark), isKeyword head = false → Reads inner →
      Reads (callMarks head [inner]) := by
    intro head inner named reads
    have call := reads_call (some inner) [] named (by simpa using reads) (by simp) (by simp)
      (by simp) (by simp)
    simpa using call
  induction type with
  | leaf name => exact reads_name free
  | list item ih => exact wraps "List" _ (by decide) (ih free)
  | nonNull item ih => exact wraps "NonNull" _ (by decide) (ih free)

theorem Declarator.reads_phrase {declarator : Declarator} {keywords : List (String × Phrase)}
    (head : isKeyword declarator.head = false)
    (operand : ∀ type ∈ declarator.operand, isKeyword type.innermost.text = false)
    (free : ∀ keyword ∈ keywords, isKeyword keyword.1 = false)
    (values : ∀ keyword ∈ keywords, Reads keyword.2.marks)
    (distinct : (keywords.map Prod.fst).Nodup) (assignable : "__debug__" ∉ keywords.map Prod.fst) :
    Reads (declarator.phrase keywords).marks := by
  let pairs := keywords.map fun keyword => (keyword.1, keyword.2.marks)
  have names : pairs.map Prod.fst = keywords.map Prod.fst := by
    simp [pairs, Function.comp_def]
  have call := reads_call (declarator.operand.map fun type => (typePhrase type).marks) pairs head
    (by
      intro marks given
      obtain ⟨type, known, rfl⟩ := Option.map_eq_some_iff.mp given
      exact reads_type (operand type known))
    (by
      intro pair member
      obtain ⟨keyword, listed, rfl⟩ := List.mem_map.mp member
      exact free keyword listed)
    (by
      intro pair member
      obtain ⟨keyword, listed, rfl⟩ := List.mem_map.mp member
      exact values keyword listed)
    (by rwa [names]) (by rwa [names])
  cases operands : declarator.operand <;>
    simpa [Declarator.phrase, Phrase.call, Phrase.keyword, pairs, operands, Function.comp_def]
      using call

theorem builtin_free {name : String} (builtin : isBuiltinScalar name = true) :
    isKeyword name = false := by
  have all : ∀ scalar ∈ builtinScalars, isKeyword scalar = false := by decide
  exact all name (by simpa [isBuiltinScalar] using builtin)

theorem Declarator.outer_head_free {container : String} (free : isKeyword container = false)
    (type : TypeRef) : isKeyword (Declarator.outer container type).head = false := by
  cases type with
  | leaf name =>
      by_cases builtin : isBuiltinScalar name.text = true
      · simpa [Declarator.outer, builtin] using builtin_free builtin
      · simpa [Declarator.outer, builtin] using free
  | list item => exact ownWords_free "List" (by decide)
  | nonNull item => exact ownWords_free "NonNull" (by decide)

theorem Declarator.outer_operand_innermost {container : String} {type operand : TypeRef}
    (given : operand ∈ (Declarator.outer container type).operand) :
    operand.innermost = type.innermost := by
  cases type with
  | leaf name =>
      by_cases builtin : isBuiltinScalar name.text = true
      · simp [Declarator.outer, builtin] at given
      · simp only [Declarator.outer, builtin, Bool.false_eq_true, if_false, Option.mem_def,
          Option.some.injEq] at given
        rw [← given]
  | list item =>
      cases given
      rfl
  | nonNull item =>
      cases given
      rfl

theorem reads_argument {settings : Settings} {reserved : List String} {argument : InputValue}
    (free : isKeyword argument.type.innermost.text = false) :
    Reads (argumentPhrase settings reserved argument).marks := by
  have described : ∀ entry ∈ descriptionPhrases settings argument.description,
      entry.1 = "description" ∧ Reads entry.2.marks := by
    intro entry member
    obtain ⟨text, _, rfl⟩ := descriptionPhrases_spec member
    exact ⟨rfl, reads_text _⟩
  have names : ((descriptionPhrases settings argument.description).map Prod.fst).Sublist
      ["description"] := by
    unfold descriptionPhrases
    cases settings.described argument.description <;> simp
  apply Declarator.reads_phrase
  · unfold argumentDeclarator
    split
    · exact ownWords_free "Argument" (by decide)
    · exact Declarator.outer_head_free (by decide) argument.type
  · intro type given
    unfold argumentDeclarator at given
    split at given
    · cases given
      exact free
    · rwa [Declarator.outer_operand_innermost given]
  · intro entry member
    rw [(described entry member).1]
    decide
  · intro entry member
    exact (described entry member).2
  · exact names.nodup (by simp)
  · intro member
    exact absurd (names.subset member) (by decide)

theorem Member.keywordPhrases_distinct {settings : Settings} {member : Member}
    (wellFormed : WellFormedMember member) :
    ((member.keywordPhrases settings).map Prod.fst).Nodup := by
  have arguments : ((member.direct settings).map fun argument => argument.name.text).Nodup :=
    List.Nodup.sublist (List.filter_sublist.map _) wellFormed.distinct
  rw [List.nodup_iff_count_le_one] at arguments ⊢
  intro name
  have single := arguments name
  have repeated := member.keywordPhrases_repeated_iff settings name
  omega

theorem Member.keywordPhrases_free {settings : Settings} {member : Member}
    (wellFormed : WellFormedMember member) {entry : String × Phrase}
    (listed : entry ∈ member.keywordPhrases settings) : Bindable entry.1 := by
  refine ⟨Member.keywordPhrases_not_keyword listed, ?_⟩
  rcases Member.mem_keywordPhrases listed with ⟨name, _, rfl⟩ | ⟨text, _, rfl⟩ |
    ⟨argument, direct, rfl⟩ | ⟨mapped, _, rfl, _⟩
  · show "name" ≠ "__debug__"
    decide
  · show "description" ≠ "__debug__"
    decide
  · exact (wellFormed.arguments argument (List.mem_filter.mp direct).1).1
  · show "args" ≠ "__debug__"
    decide

theorem Member.reads_phrase {settings : Settings} {member : Member}
    (wellFormed : WellFormedMember member) : Reads (member.phrase settings).marks := by
  have argument : ∀ argument ∈ member.arguments,
      Reads (argumentPhrase settings (member.reserved settings) argument).marks := by
    intro argument listed
    have type := wellFormed.types argument.type
      (List.mem_cons_of_mem _ (List.mem_map_of_mem listed))
    exact reads_argument type.1.1
  have values : ∀ entry ∈ member.keywordPhrases settings, Reads entry.2.marks := by
    intro entry listed
    rcases Member.mem_keywordPhrases listed with ⟨name, _, rfl⟩ | ⟨text, _, rfl⟩ |
      ⟨known, direct, rfl⟩ | ⟨mapped, filled, rfl, inside⟩
    · exact reads_text _
    · exact reads_text _
    · exact argument known (List.mem_filter.mp direct).1
    · apply reads_mapping _ (by simpa using filled)
      intro inner member
      obtain ⟨entry, listed, rfl⟩ := List.mem_map.mp member
      obtain ⟨known, given, rfl⟩ := inside entry listed
      exact argument known (List.mem_filter.mp given).1
  apply Declarator.reads_phrase _ _ _ values (Member.keywordPhrases_distinct wellFormed)
  · intro bound
    obtain ⟨entry, listed, same⟩ := List.mem_map.mp bound
    exact (Member.keywordPhrases_free wellFormed listed).2 same
  · apply Declarator.outer_head_free
    cases member with
    | field source => exact ownWords_free "Field" (by decide)
    | input source => exact ownWords_free "InputField" (by decide)
  · intro type given
    rw [Declarator.outer_operand_innermost given]
    exact (wellFormed.types member.type (by simp [Member.types])).1.1
  · intro entry listed
    exact (Member.keywordPhrases_free wellFormed listed).1

end Operands

section Classes

theorem quiet_of_written {text : List Char}
    (written : WrittenIn (fun c => c ≠ '\r' ∧ c ≠ '\x00') text) : Quiet text :=
  ⟨written.not_mem (by decide) (by decide) (by decide),
    written.not_mem (by decide) (by decide) (by decide)⟩

theorem allows_of_nullFree {description : Option String} (clear : NullFree description) :
    Allows (fun c => c ≠ '\r' ∧ c ≠ '\x00') description := by
  intro text given c member noReturn _
  refine ⟨noReturn, ?_⟩
  rintro rfl
  exact clear text given member

theorem Member.expression_phrase {settings : Settings} {member : Member}
    (wellFormed : WellFormedMember member) : Expression (member.phrase settings).text := by
  have lexed : (member.phrase settings).Sound (50 + 3) :=
    Member.sound_phrase fun type listed => (wellFormed.types type listed).2
  exact ⟨_, 53, lexed, by decide, Member.reads_phrase wellFormed⟩

theorem usable_attributeName (member : Member) : Usable (attributeName member.name) :=
  ⟨safeIdentifier_spelled (snakeCase_spelled member.name_spelled), safeIdentifier_free _⟩

theorem writable_attributes {settings : Settings} {definition : TypeDefinition}
    (wellFormed : WellFormedType definition) {assignment : Attribute}
    (listed : assignment ∈ writtenAttributes settings definition.body) :
    Usable assignment.name ∧ Expression assignment.value ∧ Quiet assignment.value.toList := by
  have quiet : Quiet assignment.value.toList := by
    apply quiet_of_written (writtenIn_value listed _)
    intro member inside
    have known := wellFormed.members member inside
    exact ⟨allows_of_nullFree known.description,
      fun argument given => allows_of_nullFree (known.arguments argument given).2⟩
  rcases mem_writtenAttributes.mp listed with ⟨index, value, _, rfl⟩ | ⟨member, inside, rfl⟩
  · exact ⟨⟨safeIdentifier_spelled value.spelled, safeIdentifier_free _⟩,
      ⟨_, 0, Layout.lexes_numeral index, by decide, reads_number⟩, quiet⟩
  · have known := wellFormed.members member inside
    exact ⟨usable_attributeName member, Member.expression_phrase known, quiet⟩

theorem writable_class {settings : Settings} {definition : TypeDefinition}
    (wellFormed : WellFormedType definition) : Writable (writtenClass settings definition) where
  name := ⟨definition.name.spelled, wellFormed.name.1⟩
  base := by
    show Usable (baseOf definition.body.kind)
    cases definition.body.kind <;> decide
  entries := by
    intro entry listed
    obtain ⟨key, filled, names⟩ := metaEntriesOf_spec listed
    have keys : ∀ key ∈ ["interfaces", "types"], Usable key ∧ key ≠ "__debug__" := by decide
    obtain ⟨usable, assignable⟩ := keys entry.1 (by simpa using key)
    refine ⟨usable, assignable, filled, ?_⟩
    rw [names]
    intro name member
    obtain ⟨type, inside, rfl⟩ := List.mem_map.mp member
    exact ⟨type.spelled, (wellFormed.related type inside).1⟩
  attributes := fun assignment listed =>
    let written := writable_attributes wellFormed listed
    ⟨written.1, written.2.1⟩

/-- Only a field can still be given the name `__debug__`. -/
theorem assignable_class {settings : Settings} {definition : TypeDefinition}
    (wellFormed : WellFormedType definition) :
    Assignable (writtenClass settings definition) ↔
      ∀ member ∈ members definition.body, member.name ∉ ["_Debug__", "_DEbug__"] := by
  have named : ∀ member ∈ members definition.body,
      attributeName member.name = "__debug__" ↔ member.name ∈ ["_Debug__", "_DEbug__"] := by
    intro member inside
    rw [attributeName_debug member.name_spelled, debugSpellings, List.mem_cons]
    exact or_iff_right (wellFormed.members member inside).name
  constructor
  · rintro ⟨_, bound⟩ member inside spelled
    have listed : writtenAttribute settings member ∈ writtenAttributes settings definition.body :=
      mem_writtenAttributes.mpr (.inr ⟨member, inside, rfl⟩)
    exact bound _ listed ((named member inside).mpr spelled)
  · intro free
    refine ⟨wellFormed.name.2, ?_⟩
    intro assignment listed
    -- An enum value is only escaped, but other members are also put in snake case.
    rcases mem_writtenAttributes.mp listed with ⟨index, value, found, rfl⟩ | ⟨member, inside, rfl⟩
    · rw [ne_eq, safeIdentifier_debug]
      exact wellFormed.values value (List.mem_of_getElem? found)
    · rw [ne_eq, writtenAttribute, named member inside]
      exact free member inside

end Classes

section Modules

theorem frameworkSymbols_bindable :
    ∀ symbol ∈ frameworkSymbols, Usable symbol ∧ symbol ≠ "__debug__" := by decide

theorem writable_module {settings : Settings} {document : Document}
    (framework : settings.framework = "graphene") (wellFormed : WellFormed document)
    (filled : typeDefinitions document ≠ []) :
    WritableModule (writtenModule settings document) where
  framework := by
    show Usable settings.framework
    rw [framework]
    decide
  imports := by
    exact ⟨imports_ne_nil filled,
      fun symbol imported => frameworkSymbols_bindable symbol (imports_framework imported)⟩
  filled := by simpa [writtenModule] using filled
  classes := by
    intro declaration listed
    obtain ⟨definition, known, rfl⟩ := List.mem_map.mp listed
    exact writable_class (wellFormed.types definition known)
  schema := by
    intro wiring given
    have roots : (moduleContext settings document).Roots Usable := by
      apply moduleContext_roots (by decide)
      · intro type listed
        exact ⟨type.spelled, (wellFormed.roots type listed).1⟩
      · intro definition listed
        exact ⟨definition.name.spelled, (wellFormed.types definition listed).name.1⟩
    simp only [writtenModule, Option.mem_def] at given
    split at given
    · cases given
      exact roots
    · cases given

theorem clear_module {settings : Settings} {document : Document}
    (wellFormed : WellFormed document) :
    Clear (writtenModule settings document) where
  values := by
    intro declaration listed assignment inside
    obtain ⟨definition, known, rfl⟩ := List.mem_map.mp listed
    exact (writable_attributes (wellFormed.types definition known) inside).2.2
  descriptions := by
    intro declaration listed text given
    obtain ⟨definition, known, rfl⟩ := List.mem_map.mp listed
    apply (wellFormed.types definition known).description
    simp only [writtenClass, Settings.described, Option.mem_def] at given
    split at given
    · exact (Option.filter_eq_some_iff.mp given).1
    · cases given

/-- No field is named like `__debug__` in other letters. -/
def NoDebugField (document : Document) : Prop :=
  ∀ definition ∈ typeDefinitions document, ∀ member ∈ members definition.body,
    member.name ∉ ["_Debug__", "_DEbug__"]

instance (document : Document) : Decidable (NoDebugField document) :=
  inferInstanceAs (Decidable (∀ definition ∈ typeDefinitions document, _))

theorem module_compiles_iff {settings : Settings} {document : Document}
    (framework : settings.framework = "graphene") (wellFormed : WellFormed document) :
    problem? (writtenModule settings document).render = none ↔ NoDebugField document := by
  by_cases filled : typeDefinitions document = []
  · have empty : (writtenModule settings document).render = "" := by
      simp [writtenModule, filled, ClassModule.render]
    rw [empty]
    exact iff_of_true (by decide +kernel) (by simp [NoDebugField, filled])
  · rw [render_compiles_iff (writable_module framework wellFormed filled) (clear_module wellFormed)]
    constructor
    · intro bound definition known
      exact (assignable_class (wellFormed.types definition known)).mp
        (bound _ (List.mem_map_of_mem known))
    · intro free declaration listed
      obtain ⟨definition, known, rfl⟩ := List.mem_map.mp listed
      exact (assignable_class (wellFormed.types definition known)).mpr (free definition known)

end Modules

end SchemaClasses.Build

namespace SchemaClasses.Generator

open Schema Naming Build Output Check

theorem check_ok_iff (file content : String) :
    check file content = .ok () ↔ problem? content = none := by
  unfold check
  cases problem? content with
  | none => simp
  | some problem => cases problem <;> simp

/-- Without a template or hooks on the text, the written module is checked and given. -/
theorem generateDocument_eq {generator : Generator} {document : Document}
    (template : generator.template = none) (noHooks : generator.hooks.after = [])
    (admitted : Admitted generator.settings (generator.hooks.runBefore document))
    (filename : Option String) :
    let built := writtenModule generator.settings (generator.hooks.runBefore document)
    generator.generateDocument document filename =
      (check (generator.fileName filename) built.render).map fun _ => ⟨built, built.render⟩ := by
  intro built
  have made : generator.build (generator.hooks.runBefore document) = .ok built := by
    rw [build, buildModule_eq admitted]
    rfl
  have unchanged : ∀ content, generator.hooks.runAfter (generator.fileName filename) content =
      content := by
    simp [Hooks.runAfter, noHooks]
  by_cases empty : built.classes.isEmpty = true
  · -- A module without classes is not checked, but its empty text would pass.
    have blank : check (generator.fileName filename) "" = .ok () :=
      (check_ok_iff _ _).mpr (by decide +kernel)
    simp [generateDocument, made, bind, Except.bind, pure, Except.pure, empty, ClassModule.render,
      blank, Except.map]
  · cases checked : check (generator.fileName filename) built.render <;>
      simp [generateDocument, made, bind, Except.bind, pure, Except.pure, empty, unchanged, render,
        template, checked, Except.map]

theorem generateDocument_eq_ok {generator : Generator} {document : Document}
    (template : generator.template = none) (noHooks : generator.hooks.after = [])
    (admitted : Admitted generator.settings (generator.hooks.runBefore document))
    (filename : Option String) (generated : Generated) :
    let built := writtenModule generator.settings (generator.hooks.runBefore document)
    generator.generateDocument document filename = .ok generated ↔
      problem? built.render = none ∧ generated = ⟨built, built.render⟩ := by
  intro built
  rw [generateDocument_eq template noHooks admitted, ← check_ok_iff (generator.fileName filename)]
  cases check (generator.fileName filename) built.render <;> simp [Except.map, eq_comm, built]

/-- A keyword as enum value and as argument, descriptions that hold quotes and line ends,
and an argument that takes the name of a constructor parameter. -/
def awkwardSchema : Document :=
  [.schema none [(.query, named "Root")],
    .type ⟨named "Color", some "it\x27s\r\n\x27\x27\x27", .enum [named "class"]⟩,
    .type ⟨named "Root", none, .object [named "Node"]
      [⟨named "URLOf_", some "a \\ \x27\n",
        [⟨named "name", none, .nonNull (.list (.leaf (named "Color")))⟩,
          ⟨named "lambda", some "(", .leaf (named "Int")⟩,
          ⟨named "first", none, .leaf (named "Color")⟩],
        .list (.leaf (named "Root"))⟩]⟩]

/-- A field that is not named `__debug__`, but becomes it in snake case. -/
def debugSchema : Document :=
  [.type ⟨named "A", none,
    .object [] [⟨named "_Debug__", none, [], .leaf (named "Int")⟩]⟩]

end SchemaClasses.Generator
