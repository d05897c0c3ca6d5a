import SchemaClasses.Proofs.BuiltModule

/-!
The import line. What a module uses of the framework is read off the module itself: the
bases of its classes, the calls in its values, and the built-in scalars that stand in
values as names. The notes that were made on the way amount to just these symbols.
-/

namespace SchemaClasses.Build

open Schema Naming Output Check

section Marks

/-- The symbols of the framework among the words of a value. A word before a bracket is
called, a word before an equals sign is a keyword, and any other names a type. -/
def usedIn : List Mark → List String
  | [] => []
  | .word name :: rest =>
      match rest with
      | .sign c :: _ =>
          if c = '(' || (c ≠ '=' && isBuiltinScalar name) then name :: usedIn rest else usedIn rest
      | _ => usedIn rest
  | _ :: rest => usedIn rest

@[simp] theorem usedIn_sign (c : Char) (rest : List Mark) :
    usedIn (.sign c :: rest) = usedIn rest := by
  rw [usedIn]
  simp

@[simp] theorem usedIn_text (body : List Char) (rest : List Mark) :
    usedIn (.text body :: rest) = usedIn rest := by
  rw [usedIn]
  simp

@[simp] theorem usedIn_called (name : String) (rest : List Mark) :
    usedIn (.word name :: .sign '(' :: rest) = name :: usedIn rest := by
  rw [usedIn]
  simp

@[simp] theorem usedIn_keyword (name : String) (rest : List Mark) :
    usedIn (.word name :: .sign '=' :: rest) = usedIn rest := by
  rw [usedIn]
  simp

theorem usedIn_name (name : String) {c : Char} (other : c ∉ ['(', '=']) (rest : List Mark) :
    usedIn (.word name :: .sign c :: rest) =
      (if isBuiltinScalar name then [name] else []) ++ usedIn rest := by
  simp only [List.mem_cons, List.not_mem_nil, or_false, not_or] at other
  rw [usedIn]
  by_cases builtin : isBuiltinScalar name = true
  · simp [other, builtin]
  · simp [other, builtin]

/-- The symbols of an operand, which a bracket or a comma follows. -/
def operandSymbols (marks : List Mark) : List String :=
  usedIn (marks ++ [.sign ')'])

/-- What follows the operand makes no difference to its symbols. -/
def Apart (marks : List Mark) : Prop :=
  ∀ (c : Char) (rest : List Mark), c ∉ ['(', '='] →
    usedIn (marks ++ .sign c :: rest) = operandSymbols marks ++ usedIn rest

theorem apart_name (name : String) : Apart [.word name] := by
  intro c rest other
  simp only [operandSymbols, List.cons_append, List.nil_append, usedIn_name name other]
  rw [usedIn_name name (by decide)]
  simp [usedIn]

theorem operandSymbols_name (name : String) :
    operandSymbols [.word name] = if isBuiltinScalar name then [name] else [] := by
  simp only [operandSymbols, List.cons_append, List.nil_append]
  rw [usedIn_name name (by decide)]
  simp [usedIn]

theorem apart_text (body : List Char) : Apart [.text body] := by
  intro c rest _
  simp [operandSymbols, usedIn]

@[simp] theorem operandSymbols_text (body : List Char) : operandSymbols [.text body] = [] := by
  simp [operandSymbols, usedIn]

theorem apart_keyword {keyword : String × List Mark} (value : Apart keyword.2) :
    Apart (keywordMarks keyword) := by
  intro c rest other
  simp [keywordMarks, operandSymbols, value c rest other]

@[simp] theorem operandSymbols_keyword (keyword : String × List Mark) :
    operandSymbols (keywordMarks keyword) = operandSymbols keyword.2 := by
  simp [keywordMarks, operandSymbols]

theorem apart_entry {entry : List Char × List Mark} (value : Apart entry.2) :
    Apart (entryMarks entry) := by
  intro c rest other
  simp [entryMarks, operandSymbols, value c rest other]

@[simp] theorem operandSymbols_entry (entry : List Char × List Mark) :
    operandSymbols (entryMarks entry) = operandSymbols entry.2 := by
  simp [entryMarks, operandSymbols]

theorem usedIn_joined {pieces : List (List Mark)} (each : ∀ piece ∈ pieces, Apart piece)
    {c : Char} (other : c ∉ ['(', '=']) (rest : List Mark) :
    usedIn (joined pieces ++ .sign c :: rest) = pieces.flatMap operandSymbols ++ usedIn rest := by
  induction pieces with
  | nil => simp [joined]
  | cons first others ih =>
      -- A piece stands before a comma or before the sign at the end, never before a bracket.
      have apart := each first (by simp)
      have tail := ih fun piece member => each piece (by simp [member])
      cases others with
      | nil => simpa [joined] using apart c rest other
      | cons second others =>
          simp only [joined, List.intercalate_cons_cons, List.append_assoc] at tail ⊢
          rw [List.singleton_append, apart ',' _ (by decide), tail]
          simp

theorem usedIn_call (head : String) {arguments : List (List Mark)}
    (each : ∀ argument ∈ arguments, Apart argument) (rest : List Mark) :
    usedIn (callMarks head arguments ++ rest) =
      head :: arguments.flatMap operandSymbols ++ usedIn rest := by
  simp only [callMarks, List.cons_append, List.append_assoc, List.nil_append, usedIn_called]
  rw [usedIn_joined each (by decide)]

theorem operandSymbols_call (head : String) (arguments : List (List Mark))
    (each : ∀ argument ∈ arguments, Apart argument) :
    operandSymbols (callMarks head arguments) = head :: arguments.flatMap operandSymbols := by
  simp [operandSymbols, usedIn_call head each, usedIn]

theorem apart_call (head : String) {arguments : List (List Mark)}
    (each : ∀ argument ∈ arguments, Apart argument) : Apart (callMarks head arguments) := by
  intro c rest _
  rw [usedIn_call head each, operandSymbols_call head arguments each, usedIn_sign]

theorem usedIn_mapping {entries : List (List Char × List Mark)}
    (each : ∀ entry ∈ entries, Apart entry.2) (rest : List Mark) :
    usedIn (mappingMarks entries ++ rest) =
      (entries.flatMap fun entry => operandSymbols entry.2) ++ usedIn rest := by
  have pieces : ∀ piece ∈ entries.map entryMarks, Apart piece := by
    intro piece member
    obtain ⟨entry, listed, rfl⟩ := List.mem_map.mp member
    exact apart_entry (each entry listed)
  simp only [mappingMarks, List.cons_append, List.append_assoc, List.nil_append, usedIn_sign]
  rw [usedIn_joined pieces (by decide)]
  simp [List.flatMap_map]

theorem operandSymbols_mapping {entries : List (List Char × List Mark)}
    (each : ∀ entry ∈ entries, Apart entry.2) :
    operandSymbols (mappingMarks entries) =
      entries.flatMap fun entry => operandSymbols entry.2 := by
  simp [operandSymbols, usedIn_mapping each, usedIn]

theorem apart_mapping {entries : List (List Char × List Mark)}
    (each : ∀ entry ∈ entries, Apart entry.2) : Apart (mappingMarks entries) := by
  intro c rest _
  rw [usedIn_mapping each, operandSymbols_mapping each, usedIn_sign]

end Marks

section Values

theorem apart_type (type : TypeRef) : Apart (typePhrase type).marks := by
  cases type with
  | leaf name => exact apart_name name.text
  | list item => exact apart_call "List" (by simpa using apart_type item)
  | nonNull item => exact apart_call "NonNull" (by simpa using apart_type item)

theorem operandSymbols_type (type : TypeRef) :
    operandSymbols (typePhrase type).marks = typeSymbols type := by
  induction type with
  | leaf name => exact operandSymbols_name name.text
  | list item ih =>
      have call := operandSymbols_call "List" [(typePhrase item).marks]
        (by simpa using apart_type item)
      simpa [ih, typeSymbols, typePhrase, Phrase.call] using call
  | nonNull item ih =>
      have call := operandSymbols_call "NonNull" [(typePhrase item).marks]
        (by simpa using apart_type item)
      simpa [ih, typeSymbols, typePhrase, Phrase.call] using call

theorem Declarator.usedIn_phrase (declarator : Declarator) {keywords : List (String × Phrase)}
    (values : ∀ keyword ∈ keywords, Apart keyword.2.marks) (rest : List Mark) :
    usedIn ((declarator.phrase keywords).marks ++ rest) =
      declarator.symbols ++ (keywords.flatMap fun keyword => operandSymbols keyword.2.marks) ++
        usedIn rest := by
  have each : ∀ argument ∈ (declarator.operand.toList.map typePhrase ++
      keywords.map Phrase.keyword).map Phrase.marks, Apart argument := by
    intro argument member
    obtain ⟨phrase, listed, rfl⟩ := List.mem_map.mp member
    rcases List.mem_append.mp listed with first | later
    · obtain ⟨type, _, rfl⟩ := List.mem_map.mp first
      exact apart_type type
    · obtain ⟨keyword, known, rfl⟩ := List.mem_map.mp later
      exact apart_keyword (values keyword known)
  have call := usedIn_call declarator.head each rest
  simp only [List.map_append, List.map_map, List.flatMap_append, List.flatMap_map,
    Function.comp_def, operandSymbols_type, Phrase.keyword, operandSymbols_keyword] at call
  simpa [Declarator.phrase, Phrase.call, Phrase.keyword, Declarator.symbols, Function.comp_def]
    using call

theorem Declarator.apart_phrase (declarator : Declarator) {keywords : List (String × Phrase)}
    (values : ∀ keyword ∈ keywords, Apart keyword.2.marks) :
    Apart (declarator.phrase keywords).marks := by
  intro c rest _
  rw [operandSymbols, Declarator.usedIn_phrase declarator values,
    Declarator.usedIn_phrase declarator values]
  simp [usedIn]

theorem apart_descriptions (settings : Settings) (description : Option String) :
    ∀ entry ∈ descriptionPhrases settings description, Apart entry.2.marks := by
  intro entry member
  obtain ⟨text, _, rfl⟩ := descriptionPhrases_spec member
  exact apart_text _

theorem apart_argument (settings : Settings) (reserved : List String) (argument : InputValue) :
    Apart (argumentPhrase settings reserved argument).marks :=
  Declarator.apart_phrase _ (apart_descriptions settings argument.description)

theorem operandSymbols_argument (settings : Settings) (reserved : List String)
    (argument : InputValue) :
    operandSymbols (argumentPhrase settings reserved argument).marks =
      (argumentDeclarator reserved argument).symbols := by
  -- A description is a text, whatever it looks like.
  have none : (descriptionPhrases settings argument.description).flatMap
      (fun keyword => operandSymbols keyword.2.marks) = [] := by
    rw [List.flatMap_eq_nil_iff]
    intro entry member
    obtain ⟨text, _, rfl⟩ := descriptionPhrases_spec member
    exact operandSymbols_text _
  rw [operandSymbols, argumentPhrase,
    Declarator.usedIn_phrase _ (apart_descriptions settings argument.description), none]
  simp [usedIn]

theorem Member.apart_keywords (settings : Settings) (member : Member) :
    ∀ entry ∈ member.keywordPhrases settings, Apart entry.2.marks := by
  intro entry listed
  rcases Member.mem_keywordPhrases listed with ⟨name, _, rfl⟩ | ⟨text, _, rfl⟩ |
    ⟨argument, _, rfl⟩ | ⟨mapped, _, rfl, inside⟩
  · exact apart_text _
  · exact apart_text _
  · exact apart_argument settings _ argument
  · apply apart_mapping
    intro inner member
    obtain ⟨entry, listed, rfl⟩ := List.mem_map.mp member
    obtain ⟨argument, _, rfl⟩ := inside entry listed
    exact apart_argument settings _ argument

/-- The symbols that a value uses, read off its text. -/
def valueSymbols (value : String) : List String :=
  ((valueMarks value).map usedIn).getD []

theorem Member.valueSymbols_phrase (settings : Settings) (member : Member) :
    valueSymbols (member.phrase settings).text =
      member.declarator.symbols ++
        (member.keywordPhrases settings).flatMap fun entry => operandSymbols entry.2.marks := by
  have used := Declarator.usedIn_phrase member.declarator (member.apart_keywords settings) []
  rw [List.append_nil] at used
  rw [valueSymbols, Member.valueMarks_phrase]
  simpa [Member.phrase, usedIn] using used

theorem valueSymbols_numeral (n : Nat) : valueSymbols (toString n) = [] := by
  rw [valueSymbols, valueMarks_eq (Layout.lexes_numeral n)]
  rfl

theorem operandSymbols_entries {settings : Settings} {reserved : List String}
    (mapped : Entries Phrase) (known : ∀ entry ∈ mapped, ∃ argument,
      entry = argumentEntry settings reserved argument) :
    operandSymbols (Phrase.mapping mapped).marks =
      mapped.flatMap fun entry => operandSymbols entry.2.marks := by
  have each : ∀ marks ∈ mapped.map (fun entry =>
      (entry.1.toList.flatMap Literal.escapeChar, entry.2.marks)), Apart marks.2 := by
    intro marks member
    obtain ⟨entry, listed, rfl⟩ := List.mem_map.mp member
    obtain ⟨argument, rfl⟩ := known entry listed
    exact apart_argument settings reserved argument
  rw [Phrase.mapping, operandSymbols_mapping each, List.flatMap_map]

/-- Only symbols that were recorded are used. -/
theorem Member.symbols_of_used {settings : Settings} {member : Member} {symbol : String}
    (used : symbol ∈ valueSymbols (member.phrase settings).text) :
    symbol ∈ member.symbols settings := by
  rw [Member.valueSymbols_phrase] at used
  have argument : ∀ argument ∈ member.arguments,
      symbol ∈ operandSymbols (argumentPhrase settings (member.reserved settings) argument).marks →
        symbol ∈ member.symbols settings := by
    intro argument listed inside
    rw [operandSymbols_argument] at inside
    exact List.mem_append_left _ (List.mem_flatMap.mpr ⟨argument, listed, inside⟩)
  rcases List.mem_append.mp used with own | inner
  · exact List.mem_append_right _ own
  · obtain ⟨entry, listed, inside⟩ := List.mem_flatMap.mp inner
    rcases Member.mem_keywordPhrases listed with ⟨name, _, rfl⟩ | ⟨text, _, rfl⟩ |
      ⟨known, direct, rfl⟩ | ⟨mapped, _, rfl, entries⟩
    · exact absurd inside (by simp [Phrase.quoted])
    · exact absurd inside (by simp [Phrase.quoted])
    · exact argument known (List.mem_filter.mp direct).1 inside
    · rw [operandSymbols_entries mapped fun entry listed =>
        (entries entry listed).imp fun _ given => given.2] at inside
      obtain ⟨entry, listed, symbolInside⟩ := List.mem_flatMap.mp inside
      obtain ⟨known, given, rfl⟩ := entries entry listed
      exact argument known (List.mem_filter.mp given).1 symbolInside

/-- Where every argument is written, every recorded symbol is used. -/
theorem Member.used_of_symbols {settings : Settings} {member : Member} {symbol : String}
    (distinct : (member.arguments.map fun argument => argument.name.text).Nodup)
    (recorded : symbol ∈ member.symbols settings) :
    symbol ∈ valueSymbols (member.phrase settings).text := by
  rw [Member.valueSymbols_phrase]
  rcases List.mem_append.mp recorded with inner | own
  · obtain ⟨argument, listed, inside⟩ := List.mem_flatMap.mp inner
    rw [← operandSymbols_argument settings] at inside
    let entry := argumentEntry settings (member.reserved settings) argument
    apply List.mem_append_right
    -- The argument is written in the `args` mapping or as a keyword, and its symbols with it.
    by_cases collides : isColliding argument.name.text (member.reserved settings) = true
    · have mapped : argument ∈ member.mapped settings := List.mem_filter.mpr ⟨listed, collides⟩
      let pairs := (member.mapped settings).map (argumentEntry settings (member.reserved settings))
      have written : ("args", Phrase.mapping pairs) ∈ member.keywordPhrases settings := by
        rw [Member.keywordPhrases_eq distinct]
        apply List.mem_append_right
        simp [argsPhrases, pairs, List.ne_nil_of_mem mapped]
      have symbols := operandSymbols_entries pairs fun entry listed =>
        (List.mem_map.mp listed).imp fun _ given => given.2.symm
      have used : symbol ∈ operandSymbols (Phrase.mapping pairs).marks := by
        rw [symbols]
        exact List.mem_flatMap.mpr ⟨entry, List.mem_map_of_mem mapped, inside⟩
      exact List.mem_flatMap.mpr ⟨("args", Phrase.mapping pairs), written, used⟩
    · have direct : argument ∈ member.direct settings :=
        List.mem_filter.mpr ⟨listed, by simpa using collides⟩
      have written : entry ∈ member.keywordPhrases settings :=
        List.mem_append_left _ (List.mem_append_right _ (List.mem_map_of_mem direct))
      exact List.mem_flatMap.mpr ⟨entry, written, inside⟩
  · exact List.mem_append_left _ own

end Values

section Modules

/-- The symbols that a module uses. -/
def usedSymbols (built : ClassModule) : List String :=
  (built.classes.flatMap fun declaration =>
    declaration.base :: declaration.attributes.flatMap fun assignment =>
      valueSymbols assignment.value) ++
    (if built.schema.isSome then ["Schema"] else [])

theorem mem_usedSymbols {built : ClassModule} {symbol : String} :
    symbol ∈ usedSymbols built ↔
      (∃ declaration ∈ built.classes, symbol = declaration.base ∨
        ∃ assignment ∈ declaration.attributes, symbol ∈ valueSymbols assignment.value) ∨
      (built.schema.isSome = true ∧ symbol = "Schema") := by
  have schema : symbol ∈ (if built.schema.isSome = true then ["Schema"] else []) ↔
      built.schema.isSome = true ∧ symbol = "Schema" := by
    split <;> simp [*]
  simp only [usedSymbols, List.mem_append, List.mem_flatMap, List.mem_cons, schema]

theorem schema_writtenModule (settings : Settings) (document : Document) :
    (writtenModule settings document).schema.isSome = settings.wiring := by
  cases wiring : settings.wiring <;> simp [writtenModule, wiring]

/-- Every argument of a field has a name of its own. -/
def DistinctArguments (document : Document) : Prop :=
  ∀ definition ∈ typeDefinitions document, ∀ member ∈ members definition.body,
    (member.arguments.map fun argument => argument.name.text).Nodup

theorem valueMarks_attributes {settings : Settings} {body : TypeBody} {assignment : Attribute}
    (assigned : assignment ∈ writtenAttributes settings body) :
    (valueMarks assignment.value).isSome = true := by
  rcases mem_writtenAttributes.mp assigned with ⟨index, value, _, rfl⟩ | ⟨member, _, rfl⟩
  · rw [valueMarks_eq (Layout.lexes_numeral index)]
    rfl
  · rw [writtenAttribute, Member.valueMarks_phrase]
    rfl

theorem imported_of_used {settings : Settings} {document : Document} {symbol : String}
    (used : symbol ∈ usedSymbols (writtenModule settings document)) :
    symbol ∈ (writtenModule settings document).imports := by
  rw [mem_imports]
  rcases mem_usedSymbols.mp used with ⟨declaration, listed, inside⟩ | ⟨wired, rfl⟩
  · obtain ⟨definition, known, rfl⟩ := List.mem_map.mp listed
    refine .inr ⟨definition, known, ?_⟩
    rcases inside with rfl | ⟨assignment, assigned, inside⟩
    · exact List.mem_cons_self
    · rcases mem_writtenAttributes.mp assigned with ⟨index, value, _, rfl⟩ | ⟨member, own, rfl⟩
      · rw [valueSymbols_numeral] at inside
        cases inside
      · exact List.mem_cons_of_mem _
          (List.mem_flatMap.mpr ⟨member, own, Member.symbols_of_used inside⟩)
  · exact .inl ⟨by rwa [schema_writtenModule] at wired, rfl⟩

theorem used_of_imported {settings : Settings} {document : Document} {symbol : String}
    (distinct : DistinctArguments document)
    (imported : symbol ∈ (writtenModule settings document).imports) :
    symbol ∈ usedSymbols (writtenModule settings document) := by
  rw [mem_usedSymbols, schema_writtenModule]
  rcases mem_imports.mp imported with wiring | ⟨definition, known, recorded⟩
  · exact .inr wiring
  · refine .inl ⟨writtenClass settings definition, List.mem_map_of_mem known, ?_⟩
    rcases List.mem_cons.mp recorded with rfl | inner
    · exact .inl rfl
    · obtain ⟨member, own, inside⟩ := List.mem_flatMap.mp inner
      have assigned : writtenAttribute settings member ∈
          (writtenClass settings definition).attributes :=
        mem_writtenAttributes.mpr (.inr ⟨member, own, rfl⟩)
      have used := Member.used_of_symbols (distinct definition known member own) inside
      exact .inr ⟨_, assigned, used⟩

/-- No symbol is imported twice, every symbol in use is imported, and unless arguments
repeat each other's names there is no other import. All values can be read to that end. -/
theorem imports_exact (settings : Settings) (document : Document) (built : ClassModule)
    (done : buildModule settings document = .ok built) :
    built.imports.Nodup ∧ (∀ symbol ∈ usedSymbols built, symbol ∈ built.imports) ∧
      (DistinctArguments document → ∀ symbol ∈ built.imports, symbol ∈ usedSymbols built) ∧
      ∀ declaration ∈ built.classes, ∀ assignment ∈ declaration.attributes,
        (valueMarks assignment.value).isSome = true := by
  obtain ⟨_, rfl⟩ := buildModule_ok_iff.mp done
  refine ⟨Context.recordAll_symbols_nodup _ List.nodup_nil, fun symbol => imported_of_used,
    fun distinct symbol => used_of_imported distinct, ?_⟩
  intro declaration listed assignment assigned
  obtain ⟨definition, _, rfl⟩ := List.mem_map.mp listed
  exact valueMarks_attributes assigned

/-- An input type with a field of another type, and a field with an argument in the `args`
mapping and one that is passed as a keyword. -/
def searchSchema : Document :=
  [.type ⟨named "Filter", none,
      .input [⟨named "tag", none, .leaf (named "Tag")⟩]⟩,
    .type ⟨named "Query", none, .object []
      [⟨named "search", none,
        [⟨named "args", none, .nonNull (.list (.leaf (named "ID")))⟩,
          ⟨named "filter", some "Int(", .leaf (named "Filter")⟩],
        .list (.leaf (named "Float"))⟩]⟩]

theorem imports_searchSchema :
    buildModule {} searchSchema = .ok (writtenModule {} searchSchema) ∧
      DistinctArguments searchSchema ∧
      (writtenModule {} searchSchema).imports = ["Schema", "InputObjectType", "InputField",
        "ObjectType", "Argument", "NonNull", "List", "ID", "Float"] ∧
      ∀ symbol, symbol ∈ (writtenModule {} searchSchema).imports ↔
        symbol ∈ usedSymbols (writtenModule {} searchSchema) := by
  have made : buildModule {} searchSchema = .ok (writtenModule {} searchSchema) :=
    buildModule_eq fun _ _ member _ => member.admitted_of_open rfl
  have distinct : DistinctArguments searchSchema := by
    unfold DistinctArguments
    decide
  obtain ⟨_, used, imported, _⟩ := imports_exact {} searchSchema _ made
  exact ⟨made, distinct, by decide +kernel, fun symbol => ⟨imported distinct symbol, used symbol⟩⟩

end Modules

end SchemaClasses.Build
