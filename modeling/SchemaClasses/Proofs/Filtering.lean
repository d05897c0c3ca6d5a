import SchemaClasses.Hook.Basic
import SchemaClasses.Proofs.RootTypes

/-!
Filters before the generation. However many there are and in whatever order they run, they
leave the definitions that all of them keep. The module of these has the classes that they
had in the whole module, and loses nothing else but symbols that only dropped types used and
roots that only dropped types stood for.
-/

namespace SchemaClasses

open Schema Build

section Filters

/-- Hooks that only filter, in the order given. -/
def Hooks.filtering (filters : List TypeFilter) : Hooks where
  before := filters.map Hook.ofFilter

def keptByAll (filters : List TypeFilter) (definition : Definition) : Bool :=
  filters.all (·.keeps definition)

theorem keptByAll_of_not_type (filters : List TypeFilter) {definition : Definition}
    (other : typeDefinition? definition = none) : keptByAll filters definition = true := by
  rw [keptByAll, List.all_eq_true]
  intro filter _
  cases definition with
  | type known => cases other
  | _ => rfl

theorem runBefore_filtering (filters : List TypeFilter) (document : Document) :
    (Hooks.filtering filters).runBefore document = document.filter (keptByAll filters) := by
  induction filters generalizing document with
  | nil => exact (List.filter_eq_self.mpr fun _ _ => rfl).symm
  | cons filter rest ih =>
      change (Hooks.filtering rest).runBefore (filter.apply document) = _
      rw [ih, TypeFilter.apply, List.filter_filter]
      apply List.filter_congr
      intro definition _
      exact Bool.and_comm _ _

/-- Neither order nor repetition matters. -/
theorem keptByAll_congr {filters others : List TypeFilter}
    (same : ∀ filter, filter ∈ others ↔ filter ∈ filters) :
    keptByAll others = keptByAll filters := by
  funext definition
  apply Bool.eq_iff_iff.mpr
  simp only [keptByAll, List.all_eq_true, same]

end Filters

end SchemaClasses

namespace SchemaClasses.Build

open Schema Naming Output

section Modules

/-! The module of the definitions that are kept. -/

variable {settings : Settings} {document : Document} (kept : Definition → Bool)

theorem admitted_filter (admitted : Admitted settings document) :
    Admitted settings (document.filter kept) := by
  intro definition listed
  have known := (List.mem_filter.mp (mem_typeDefinitions.mp listed)).1
  exact admitted definition (mem_typeDefinitions.mpr known)

theorem imports_filter :
    (writtenModule settings (document.filter kept)).imports ⊆
      (writtenModule settings document).imports := by
  intro symbol imported
  rcases mem_imports.mp imported with wiring | ⟨definition, listed, used⟩
  · exact mem_imports.mpr (.inl wiring)
  · have known := (List.mem_filter.mp (mem_typeDefinitions.mp listed)).1
    exact mem_imports.mpr (.inr ⟨definition, mem_typeDefinitions.mpr known, used⟩)

/-- Of what was declared for each definition, that of the kept ones. -/
def declaredFor (document : Document) (declarations : List (Option ClassDeclaration)) :
    List ClassDeclaration :=
  ((document.zip declarations).filter fun entry => kept entry.1).filterMap Prod.snd

theorem declaredFor_map (declared : Definition → Option ClassDeclaration) :
    declaredFor kept document (document.map declared) =
      (document.filter kept).filterMap declared := by
  induction document with
  | nil => rfl
  | cons definition rest ih =>
      simp only [declaredFor] at ih
      by_cases keeps : kept definition = true
      · simp only [declaredFor, List.map_cons, List.zip_cons_cons, List.filter_cons, keeps, if_true,
          List.filterMap_cons, ih]
      · simp only [declaredFor, List.map_cons, List.zip_cons_cons, List.filter_cons, keeps,
          Bool.false_eq_true, if_false, ih]

/-- No schema block names a type for the operation, an object type stands for it by its
name, and every such type is dropped. -/
def losesRoot (operation : Operation) (name : String) (document : Document) : Bool :=
  (lastEntry operation document).isNone && document.any (isObjectNamed name) &&
    document.all fun definition => !(isObjectNamed name definition && kept definition)

def wiringOfKept (document : Document) (wiring : Wiring) : Wiring where
  query := wiring.query
  mutation := if losesRoot kept .mutation "Mutation" document then none else wiring.mutation
  subscription :=
    if losesRoot kept .subscription "Subscription" document then none else wiring.subscription

variable {kept}

theorem root_filter (operation : Operation) (name : String) (document : Document) :
    (lastEntry operation document).or (objectNamed name (document.filter kept)) =
      if losesRoot kept operation name document then none
      else (lastEntry operation document).or (objectNamed name document) := by
  have remaining : (document.filter kept).any (isObjectNamed name) =
      !document.all fun definition => !(isObjectNamed name definition && kept definition) := by
    rw [List.any_filter, List.not_all_eq_any_not]
    simp only [Bool.not_not, Bool.and_comm]
  rw [losesRoot, objectNamed, objectNamed, remaining]
  cases lastEntry operation document with
  | some type => rfl
  | none =>
      cases dropped : document.all fun definition =>
          !(isObjectNamed name definition && kept definition) with
      | true => cases document.any (isObjectNamed name) <;> rfl
      | false =>
          -- A type of that name is kept, so there was one before.
          have present : document.any (isObjectNamed name) = true := by
            rw [dropped] at remaining
            obtain ⟨definition, listed, has⟩ := List.any_eq_true.mp remaining
            exact List.any_eq_true.mpr ⟨definition, (List.mem_filter.mp listed).1, has⟩
          simp [present]

theorem rootTypes_kept
    (blocks : ∀ definition, isSchemaBlock definition = true → kept definition = true)
    (document : Document) :
    rootTypes (document.filter kept) = wiringOfKept kept document (rootTypes document) := by
  simp only [rootTypes, wiringOfKept, lastEntry_filter blocks, root_filter]

/-- Filters leave what all of them keep, and every definition that is not of a type. What
remains of a document that can be built can be built too. It makes the classes that were made
for the kept definitions, imports no symbol that was not imported before, and has the same
root types, save those that dropped types alone stood for. -/
theorem buildModule_filtering (settings : Settings) (document : Document)
    (filters : List TypeFilter) :
    (∀ others : List TypeFilter, (∀ filter, filter ∈ others ↔ filter ∈ filters) →
      (Hooks.filtering others).runBefore document =
        (Hooks.filtering filters).runBefore document) ∧
    (Hooks.filtering filters).runBefore document = document.filter (keptByAll filters) ∧
    ((Hooks.filtering filters).runBefore document).filter (typeDefinition? · |>.isNone) =
      document.filter (typeDefinition? · |>.isNone) ∧
    ∀ built, buildModule settings document = .ok built →
      ∃ rebuilt declarations,
        buildModule settings ((Hooks.filtering filters).runBefore document) = .ok rebuilt ∧
        (declareAll settings document).outcome = .ok declarations ∧
        declarations.length = document.length ∧
        built.classes = declarations.filterMap id ∧
        rebuilt.classes = declaredFor (keptByAll filters) document declarations ∧
        rebuilt.imports ⊆ built.imports ∧
        rebuilt.schema = built.schema.map (wiringOfKept (keptByAll filters) document) := by
  have blocks : ∀ definition, isSchemaBlock definition = true →
      keptByAll filters definition = true := by
    intro definition block
    apply keptByAll_of_not_type
    cases definition with
    | schema description roots => rfl
    | _ => cases block
  refine ⟨?_, runBefore_filtering filters document, ?_, ?_⟩
  · intro others same
    rw [runBefore_filtering, runBefore_filtering, keptByAll_congr same]
  · rw [runBefore_filtering, List.filter_filter]
    apply List.filter_congr
    intro definition _
    cases other : typeDefinition? definition with
    | none => simp [keptByAll_of_not_type filters other]
    | some known => rfl
  · intro built done
    obtain ⟨admitted, rfl⟩ := buildModule_ok_iff.mp done
    have declared := congrArg Recorded.outcome (declareAll_eq admitted)
    rw [runBefore_filtering]
    refine ⟨_, _, buildModule_eq (admitted_filter _ admitted), declared, List.length_map _, ?_, ?_,
      imports_filter _, ?_⟩
    · simp [writtenModule, typeDefinitions, List.filterMap_map, List.map_filterMap]
    · simp [declaredFor_map, writtenModule, typeDefinitions, List.map_filterMap]
    · simp only [writtenModule, moduleContext_wiring, rootTypes_kept blocks]
      cases settings.wiring <;> rfl

/-- One root is named by a block and one by its own name alone. -/
def stockSchema : Document :=
  [.schema none [(.query, named "Stock"), (.subscription, named "Subscription")],
    .type ⟨named "Mutation", none, .object []
      [⟨named "clear", none, [], .nonNull (.leaf (named "Boolean"))⟩]⟩,
    .type ⟨named "Stock", some "On hand.", .object []
      [⟨named "total", none, [], .list (.leaf (named "Int"))⟩]⟩,
    .typeExtension .object (named "Mutation"),
    .type ⟨named "Subscription", none, .object [] []⟩]

/-- Both roots lose their types, and the extension of the one stays. -/
def rootFilters : List TypeFilter :=
  [{ excludedStart := some "Mut", includedEnd := some "" }, { excludedEnd := some "ription" },
    { excludedKinds := [.enum] }]

theorem filtering_stockSchema :
    (Hooks.filtering (rootFilters.reverse ++ rootFilters)).runBefore stockSchema =
      (Hooks.filtering rootFilters).runBefore stockSchema ∧
    ∃ built rebuilt declarations, buildModule {} stockSchema = .ok built ∧
      buildModule {} ((Hooks.filtering rootFilters).runBefore stockSchema) = .ok rebuilt ∧
      (declareAll {} stockSchema).outcome = .ok declarations ∧
      rebuilt.classes = declaredFor (keptByAll rootFilters) stockSchema declarations ∧
      rebuilt.classes.map (·.name) = ["Stock"] ∧
      rebuilt.imports ⊆ built.imports ∧
      built.schema = some ⟨"Stock", some "Mutation", some "Subscription"⟩ ∧
      rebuilt.schema = some ⟨"Stock", none, some "Subscription"⟩ := by
  have made : buildModule {} stockSchema = .ok (writtenModule {} stockSchema) :=
    buildModule_eq fun _ _ member _ => member.admitted_of_open rfl
  obtain ⟨unordered, _, _, filtered⟩ := buildModule_filtering {} stockSchema rootFilters
  obtain ⟨rebuilt, declarations, remade, declared, _, _, classes, imports, wiring⟩ :=
    filtered _ made
  have schema : (writtenModule {} stockSchema).schema =
      some ⟨"Stock", some "Mutation", some "Subscription"⟩ := by decide +kernel
  refine ⟨unordered _ (by simp), _, rebuilt, declarations, made, remade, declared, classes, ?_,
    imports, schema, ?_⟩
  · obtain ⟨_, rfl⟩ := buildModule_ok_iff.mp remade
    decide +kernel
  · rw [wiring, schema]
    decide +kernel

end Modules

end SchemaClasses.Build
