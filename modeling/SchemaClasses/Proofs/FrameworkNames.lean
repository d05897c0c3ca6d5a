import SchemaClasses.Proofs.ImportLine

/-!
What the symbols of the framework stand for in a module that runs from top to bottom. Classes
take the names of their types as they are, so a type that is named like a symbol takes the
symbol's place for all that comes after its class, but not within it. Nothing else does:
attributes of fields have no capitals, and in the body of an enum no symbol is used.
-/

namespace SchemaClasses.Build

open Schema Naming Output

section Scopes

/-- How a name was bound: by the import line, by a class, or in the body of one. -/
inductive Binding where
  | imported
  | declared
  | inner
  deriving DecidableEq, Repr

/-- The names that are bound at some place. The last binding of a name is the first here. -/
abbrev Scope := List (String × Binding)

/-- A symbol where it is used, with its binding there. -/
structure Use where
  symbol : String
  binding : Option Binding
  deriving DecidableEq, Repr

namespace Scope

def use (scope : Scope) (symbol : String) : Use :=
  ⟨symbol, scope.lookup symbol⟩

/-- A class is bound when its body is done. -/
def declare (scope : Scope) (declaration : ClassDeclaration) : Scope :=
  (declaration.name, .declared) :: scope

def assign (scope : Scope) (name : String) : Scope :=
  (name, .inner) :: scope

/-- The body of a class begins with its meta entries, if there are any. -/
def enter (scope : Scope) (declaration : ClassDeclaration) : Scope :=
  if declaration.metaEntries.isEmpty then scope else scope.assign "Meta"

end Scope

def importScope (built : ClassModule) : Scope :=
  built.imports.map fun symbol => (symbol, .imported)

/-- The scope of a module after some of its classes. -/
def scopeAfter (built : ClassModule) (classes : List ClassDeclaration) : Scope :=
  classes.foldl Scope.declare (importScope built)

/-- The binding of an imported symbol after some classes. -/
def bindingAfter (classes : List ClassDeclaration) (symbol : String) : Binding :=
  if symbol ∈ classes.map ClassDeclaration.name then .declared else .imported

/-- Each attribute is bound once its value is known. -/
def attributeUses (scope : Scope) : List Attribute → List Use
  | [] => []
  | assignment :: rest =>
      (valueSymbols assignment.value).map scope.use ++
        attributeUses (scope.assign assignment.name) rest

def classUses (scope : Scope) (declaration : ClassDeclaration) : List Use :=
  scope.use declaration.base :: attributeUses (scope.enter declaration) declaration.attributes

def classesUses (scope : Scope) : List ClassDeclaration → List Use
  | [] => []
  | declaration :: rest =>
      classUses scope declaration ++ classesUses (scope.declare declaration) rest

/-- The `Schema(...)` statement comes after all classes. -/
def wiringUses (built : ClassModule) : List Use :=
  if built.schema.isSome then [(scopeAfter built built.classes).use "Schema"] else []

def moduleUses (built : ClassModule) : List Use :=
  classesUses (importScope built) built.classes ++ wiringUses built

theorem lookup_assign {scope : Scope} {name symbol : String} (other : symbol ≠ name) :
    (scope.assign name).lookup symbol = scope.lookup symbol := by
  rw [Scope.assign, List.lookup_cons, beq_false_of_ne other]

theorem lookup_declare (scope : Scope) (declaration : ClassDeclaration) (symbol : String) :
    (scope.declare declaration).lookup symbol =
      if symbol = declaration.name then some .declared else scope.lookup symbol := by
  rw [Scope.declare, List.lookup_cons]
  by_cases same : symbol = declaration.name
  · rw [if_pos same, same, beq_self_eq_true]
  · rw [if_neg same, beq_false_of_ne same]

theorem lookup_declareAll (scope : Scope) (classes : List ClassDeclaration) (symbol : String) :
    (classes.foldl Scope.declare scope).lookup symbol =
      if symbol ∈ classes.map ClassDeclaration.name then some .declared
      else scope.lookup symbol := by
  induction classes generalizing scope with
  | nil => simp
  | cons declaration rest ih =>
      rw [List.foldl_cons, ih, lookup_declare, List.map_cons]
      by_cases later : symbol ∈ rest.map ClassDeclaration.name
      · simp [later]
      · simp [later]

theorem lookup_imported {symbols : List String} {symbol : String} (listed : symbol ∈ symbols) :
    (symbols.map fun symbol => (symbol, Binding.imported)).lookup symbol = some .imported := by
  induction symbols with
  | nil => cases listed
  | cons first rest ih =>
      rw [List.map_cons, List.lookup_cons]
      by_cases same : symbol = first
      · rw [same, beq_self_eq_true]
      · rw [beq_false_of_ne same]
        exact ih ((List.mem_cons.mp listed).resolve_left same)

/-- An imported symbol is what it was, unless a class has taken its name. -/
theorem lookup_scopeAfter {built : ClassModule} {symbol : String}
    (imported : symbol ∈ built.imports) (classes : List ClassDeclaration) :
    (scopeAfter built classes).lookup symbol = some (bindingAfter classes symbol) := by
  rw [scopeAfter, lookup_declareAll, importScope, lookup_imported imported, bindingAfter]
  split <;> rfl

theorem bindingAfter_imported {classes : List ClassDeclaration} {symbol : String}
    (free : ∀ declaration ∈ classes, declaration.name ≠ symbol) :
    bindingAfter classes symbol = .imported := by
  apply if_neg
  intro taken
  obtain ⟨declaration, listed, same⟩ := List.mem_map.mp taken
  exact free declaration listed same

end Scopes

section Bodies

/-- Attributes that do not share a name with a symbol of their values change no use. -/
theorem attributeUses_lookup {scope : Scope} {attributes : List Attribute}
    (free : ∀ assignment ∈ attributes, ∀ other ∈ attributes,
      assignment.name ∉ valueSymbols other.value) :
    ∀ use ∈ attributeUses scope attributes,
      (∃ assignment ∈ attributes, use.symbol ∈ valueSymbols assignment.value) ∧
        use.binding = scope.lookup use.symbol := by
  induction attributes generalizing scope with
  | nil => simp [attributeUses]
  | cons assignment rest ih =>
      intro use listed
      rcases List.mem_append.mp listed with first | later
      · obtain ⟨symbol, inside, rfl⟩ := List.mem_map.mp first
        exact ⟨⟨assignment, by simp, inside⟩, rfl⟩
      · obtain ⟨⟨other, known, inside⟩, binding⟩ :=
          ih (fun one listed two also => free one (by simp [listed]) two (by simp [also])) use later
        have apart : use.symbol ≠ assignment.name := by
          intro same
          exact free assignment (by simp) other (by simp [known]) (same ▸ inside)
        exact ⟨⟨other, by simp [known], inside⟩, binding.trans (lookup_assign apart)⟩

theorem frameworkSymbols_capital :
    ∀ symbol ∈ frameworkSymbols, symbol.toList.any Char.isUpper = true := by decide

theorem attributeName_not_framework (member : Member) :
    attributeName member.name ∉ frameworkSymbols := by
  intro listed
  obtain ⟨c, inside, capital⟩ := List.any_eq_true.mp (frameworkSymbols_capital _ listed)
  rw [attributeName_small member.name_spelled c inside] at capital
  cases capital

/-- A type has values or members, or neither. -/
theorem enumValues_or_members (body : TypeBody) : enumValues body = [] ∨ members body = [] := by
  cases body with
  | enum values => exact .inr rfl
  | _ => exact .inl rfl

theorem writtenAttributes_free {settings : Settings} {body : TypeBody} :
    ∀ assignment ∈ writtenAttributes settings body, ∀ other ∈ writtenAttributes settings body,
      assignment.name ∉ valueSymbols other.value := by
  intro assignment listed other also used
  rcases mem_writtenAttributes.mp also with ⟨index, value, _, rfl⟩ | ⟨source, own, rfl⟩
  · rw [valueSymbols_numeral] at used
    cases used
  · rcases mem_writtenAttributes.mp listed with ⟨index, value, found, rfl⟩ | ⟨member, _, rfl⟩
    · rcases enumValues_or_members body with noValues | noMembers
      · simp [noValues] at found
      · simp [noMembers] at own
    · dsimp only [writtenAttribute] at used
      exact attributeName_not_framework member
        (Member.symbols_framework (Member.symbols_of_used used))

end Bodies

section Modules

theorem lookup_enter {scope : Scope} {symbol : String} (known : symbol ∈ frameworkSymbols)
    (declaration : ClassDeclaration) :
    (scope.enter declaration).lookup symbol = scope.lookup symbol := by
  have apart : symbol ≠ "Meta" := by
    rintro rfl
    exact absurd known (by decide)
  unfold Scope.enter
  split
  · rfl
  · exact lookup_assign apart

/-- In a class all symbols are bound as they were before it. -/
theorem classUses_lookup {settings : Settings} {document : Document} {definition : TypeDefinition}
    (known : definition ∈ typeDefinitions document) (scope : Scope) :
    ∀ use ∈ classUses scope (writtenClass settings definition),
      use.symbol ∈ (writtenModule settings document).imports ∧
        use.binding = scope.lookup use.symbol := by
  have listed : writtenClass settings definition ∈ (writtenModule settings document).classes :=
    List.mem_map_of_mem known
  intro use inside
  rcases List.mem_cons.mp inside with rfl | body
  · exact ⟨imported_of_used (mem_usedSymbols.mpr (.inl ⟨_, listed, .inl rfl⟩)), rfl⟩
  · obtain ⟨used, binding⟩ := attributeUses_lookup writtenAttributes_free use body
    have imported := imported_of_used (mem_usedSymbols.mpr (.inl ⟨_, listed, .inr used⟩))
    exact ⟨imported, binding.trans (lookup_enter (imports_framework imported) _)⟩

/-- Each use stands in one of the classes, after those before it. -/
theorem mem_classesUses {scope : Scope} {classes : List ClassDeclaration} {use : Use}
    (inside : use ∈ classesUses scope classes) :
    ∃ before declaration after, classes = before ++ declaration :: after ∧
      use ∈ classUses (before.foldl Scope.declare scope) declaration := by
  induction classes generalizing scope with
  | nil => cases inside
  | cons declaration rest ih =>
      rcases List.mem_append.mp inside with first | later
      · exact ⟨[], declaration, rest, rfl, first⟩
      · obtain ⟨before, found, after, rfl, used⟩ := ih later
        exact ⟨declaration :: before, found, after, rfl, used⟩

theorem classUses_binding {settings : Settings} {document : Document}
    {before after : List ClassDeclaration} {declaration : ClassDeclaration}
    (split : (writtenModule settings document).classes = before ++ declaration :: after) :
    ∀ use ∈ classUses (scopeAfter (writtenModule settings document) before) declaration,
      use.symbol ∈ (writtenModule settings document).imports ∧
        use.binding = some (bindingAfter before use.symbol) := by
  intro use inside
  have listed : declaration ∈ (writtenModule settings document).classes := by simp [split]
  obtain ⟨definition, known, rfl⟩ := List.mem_map.mp listed
  obtain ⟨imported, binding⟩ := classUses_lookup known _ use inside
  exact ⟨imported, binding.trans (lookup_scopeAfter imported before)⟩

theorem wiringUses_binding {settings : Settings} {document : Document} :
    ∀ use ∈ wiringUses (writtenModule settings document),
      use.symbol ∈ (writtenModule settings document).imports ∧ use.binding =
        some (bindingAfter (writtenModule settings document).classes use.symbol) := by
  intro use listed
  unfold wiringUses at listed
  split at listed
  · rename_i wired
    have imported : "Schema" ∈ (writtenModule settings document).imports :=
      imported_of_used (mem_usedSymbols.mpr (.inr ⟨wired, rfl⟩))
    rw [List.mem_singleton.mp listed]
    exact ⟨imported, lookup_scopeAfter imported _⟩
  · cases listed

/-- Where no class has the name of an import, nothing stands in a symbol's place. -/
theorem moduleUses_imported {settings : Settings} {document : Document}
    (free : ∀ declaration ∈ (writtenModule settings document).classes,
      declaration.name ∉ (writtenModule settings document).imports) :
    ∀ use ∈ moduleUses (writtenModule settings document), use.binding = some .imported := by
  have kept : ∀ (symbol : String) (classes : List ClassDeclaration),
      symbol ∈ (writtenModule settings document).imports →
      (∀ declaration ∈ classes, declaration ∈ (writtenModule settings document).classes) →
        bindingAfter classes symbol = .imported := by
    intro symbol classes imported among
    apply bindingAfter_imported
    intro declaration listed same
    exact free declaration (among declaration listed) (same ▸ imported)
  intro use listed
  rcases List.mem_append.mp listed with inside | last
  · obtain ⟨before, declaration, after, split, used⟩ := mem_classesUses inside
    obtain ⟨imported, binding⟩ := classUses_binding split use used
    rw [binding, kept use.symbol before imported fun known first => by simp [split, first]]
  · obtain ⟨imported, binding⟩ := wiringUses_binding use last
    rw [binding, kept use.symbol _ imported fun _ known => known]

/-- Classes are named like their types. Where no type has the name of an imported symbol, no
class has, and all symbols in use are those of the import line. In general a symbol in a class
is, unless a class before it has its name, and the last `Schema` is, unless any class has. -/
theorem symbols_imported_unless_named (settings : Settings) (document : Document)
    (built : ClassModule) (done : buildModule settings document = .ok built) :
    built.classes.map ClassDeclaration.name =
      (typeDefinitions document).map (fun definition => definition.name.text) ∧
    (∀ symbol ∈ built.imports, symbol ∈ frameworkSymbols) ∧
    ((∀ definition ∈ typeDefinitions document, definition.name.text ∉ built.imports) →
      (∀ declaration ∈ built.classes, declaration.name ∉ built.imports) ∧
      ∀ use ∈ moduleUses built, use.binding = some .imported) ∧
    (∀ before declaration after, built.classes = before ++ declaration :: after →
      ∀ use ∈ classUses (scopeAfter built before) declaration,
        use.symbol ∈ built.imports ∧ use.binding = some (bindingAfter before use.symbol)) ∧
    ∀ use ∈ wiringUses built, use.binding = some (bindingAfter built.classes use.symbol) := by
  obtain ⟨_, rfl⟩ := buildModule_ok_iff.mp done
  have names : (writtenModule settings document).classes.map ClassDeclaration.name =
      (typeDefinitions document).map fun definition => definition.name.text := by
    simp [writtenModule, writtenClass]
  have free : (∀ definition ∈ typeDefinitions document,
      definition.name.text ∉ (writtenModule settings document).imports) →
        ∀ declaration ∈ (writtenModule settings document).classes,
          declaration.name ∉ (writtenModule settings document).imports := by
    intro apart declaration listed
    obtain ⟨definition, known, rfl⟩ := List.mem_map.mp listed
    exact apart definition known
  refine ⟨names, fun symbol => imports_framework, ?_, ?_, ?_⟩
  · intro apart
    exact ⟨free apart, moduleUses_imported (free apart)⟩
  · intro before declaration after split
    exact classUses_binding split
  · intro use listed
    exact (wiringUses_binding use listed).2

/-- Names that differ from those of the framework in their capitals or their length, and enum
values that do not differ at all. -/
def nearSchema : Document :=
  [.type ⟨named "Lists", none, .enum [named "List", named "Int"]⟩,
    .type ⟨named "Meta", none, .object [named "Enum_"]
      [⟨named "List", none, [⟨named "Field", none, .list (.leaf (named "Int"))⟩],
        .list (.leaf (named "Lists"))⟩,
        ⟨named "field", none, [], .leaf (named "Lists")⟩]⟩,
    .type ⟨named "schema", none, .scalar⟩]

theorem symbols_nearSchema :
    (writtenModule {} nearSchema).classes.map ClassDeclaration.name =
      ["Lists", "Meta", "schema"] ∧
    (moduleUses (writtenModule {} nearSchema)).map Use.symbol =
      ["Enum", "ObjectType", "List", "List", "Int", "Field", "Scalar", "Schema"] ∧
    ∀ use ∈ moduleUses (writtenModule {} nearSchema), use.binding = some .imported := by
  have made : buildModule {} nearSchema = .ok (writtenModule {} nearSchema) :=
    buildModule_eq fun _ _ member _ => member.admitted_of_open rfl
  have apart : ∀ definition ∈ typeDefinitions nearSchema,
      definition.name.text ∉ (writtenModule {} nearSchema).imports := by decide +kernel
  obtain ⟨_, _, uses, _⟩ := symbols_imported_unless_named {} nearSchema _ made
  exact ⟨by decide +kernel, by decide +kernel, (uses apart).2⟩

/-- The first type is named like the wrapper of the second one's field. -/
def listSchema : Document :=
  [.type ⟨named "List", none, .object []
      [⟨named "items", none, [], .list (.leaf (named "Int"))⟩]⟩,
    .type ⟨named "Query", none, .object []
      [⟨named "items", none, [], .list (.leaf (named "Int"))⟩]⟩]

theorem listSchema_captures :
    buildModule {} listSchema = .ok (writtenModule {} listSchema) ∧
    (∃ declaration ∈ (writtenModule {} listSchema).classes,
      declaration.name ∈ (writtenModule {} listSchema).imports) ∧
    moduleUses (writtenModule {} listSchema) =
      [⟨"ObjectType", some .imported⟩, ⟨"List", some .imported⟩, ⟨"Int", some .imported⟩,
        ⟨"ObjectType", some .imported⟩, ⟨"List", some .declared⟩, ⟨"Int", some .imported⟩,
        ⟨"Schema", some .imported⟩] :=
  ⟨buildModule_eq fun _ _ member _ => member.admitted_of_open rfl, by decide +kernel,
    by decide +kernel⟩

end Modules

end SchemaClasses.Build
