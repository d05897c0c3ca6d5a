import SchemaClasses.Proofs.Phrases

/-!
The module of a document whose members are not refused: one class for each type
definition, the symbols of all calls, and the root types.
-/

namespace SchemaClasses.Build

open Schema Naming Output

section Contexts

/-! What a run of notes leaves in the context, from what one note leaves. -/

namespace Context

theorem mem_record_symbols (context : Context) (note : Note) (symbol : String) :
    symbol ∈ (context.record note).symbols ↔ symbol ∈ context.symbols ∨ note = .uses symbol := by
  cases note with
  | uses used =>
      by_cases known : used ∈ context.symbols
      · simp only [record, addSymbol, known, if_true, Note.uses.injEq]
        constructor
        · exact .inl
        · rintro (old | rfl)
          · exact old
          · exact known
      · simp [record, addSymbol, known, eq_comm]
  | appoints operation type => cases operation <;> simp [record, appoint]
  | offers operation type => cases operation <;> simp [record, offer]

theorem mem_recordAll_symbols (context : Context) (notes : List Note) (symbol : String) :
    symbol ∈ (context.recordAll notes).symbols ↔
      symbol ∈ context.symbols ∨ .uses symbol ∈ notes := by
  induction notes generalizing context with
  | nil => simp [recordAll]
  | cons note rest ih =>
      change symbol ∈ ((context.record note).recordAll rest).symbols ↔ _
      rw [ih, mem_record_symbols, List.mem_cons, or_assoc, eq_comm (a := note)]

theorem record_symbols_nodup {context : Context} (note : Note) (distinct : context.symbols.Nodup) :
    (context.record note).symbols.Nodup := by
  cases note with
  | uses used =>
      by_cases known : used ∈ context.symbols
      · simpa [record, addSymbol, known] using distinct
      · simp only [record, addSymbol, known, if_false]
        rw [List.nodup_append]
        refine ⟨distinct, by simp, ?_⟩
        intro first member second single
        rw [List.mem_singleton] at single
        rintro rfl
        exact known (single ▸ member)
  | appoints operation type => cases operation <;> exact distinct
  | offers operation type => cases operation <;> exact distinct

theorem recordAll_symbols_nodup {context : Context} (notes : List Note)
    (distinct : context.symbols.Nodup) : (context.recordAll notes).symbols.Nodup := by
  induction notes generalizing context with
  | nil => exact distinct
  | cons note rest ih => exact ih (record_symbols_nodup note distinct)

theorem recordAll_append (context : Context) (first second : List Note) :
    context.recordAll (first ++ second) = (context.recordAll first).recordAll second :=
  List.foldl_append

def notedSymbols : Note → List String
  | .uses symbol => [symbol]
  | _ => []

theorem record_symbols (context : Context) (note : Note) :
    (context.record note).symbols =
      context.symbols ++ (notedSymbols note).filter (· ∉ context.symbols) := by
  cases note with
  | uses used =>
      by_cases known : used ∈ context.symbols
      · simp [record, addSymbol, notedSymbols, known]
      · simp [record, addSymbol, notedSymbols, known]
  | appoints operation type => cases operation <;> simp [record, appoint, notedSymbols]
  | offers operation type => cases operation <;> simp [record, offer, notedSymbols]

/-- The symbols of the context come first, then those of the notes alone that are not yet
among them. -/
theorem recordAll_symbols (context : Context) (notes : List Note) :
    (context.recordAll notes).symbols =
      context.symbols ++ (recordAll {} notes).symbols.filter (· ∉ context.symbols) := by
  induction notes generalizing context with
  | nil => simp [recordAll]
  | cons note rest ih =>
      have first : (record {} note).symbols = notedSymbols note := by simp [record_symbols]
      have absent : ∀ symbol, symbol ∉ context.symbols ++
          (notedSymbols note).filter (· ∉ context.symbols) ↔
            symbol ∉ context.symbols ∧ symbol ∉ notedSymbols note := by
        intro symbol
        by_cases known : symbol ∈ context.symbols <;> simp [known]
      change ((context.record note).recordAll rest).symbols = context.symbols ++
        ((record {} note).recordAll rest).symbols.filter (· ∉ context.symbols)
      rw [ih (context.record note), ih (record {} note), first, record_symbols, List.filter_append,
        List.filter_filter, List.append_assoc]
      congr 2
      apply List.filter_congr
      intro symbol _
      simp only [absent, Bool.decide_and]

/-- Every root type has the property. -/
def Roots (holds : String → Prop) (context : Context) : Prop :=
  holds context.query ∧ (∀ type ∈ context.mutation, holds type) ∧
    ∀ type ∈ context.subscription, holds type

/-- A root type that the note names has the property. -/
def NamesRoot (holds : String → Prop) : Note → Prop
  | .uses _ => True
  | .appoints _ type => holds type
  | .offers _ type => holds type

theorem record_roots {holds : String → Prop} {context : Context} {note : Note}
    (named : NamesRoot holds note) (roots : context.Roots holds) :
    (context.record note).Roots holds := by
  obtain ⟨query, mutation, subscription⟩ := roots
  cases note with
  | uses used =>
      simp only [record, addSymbol]
      split <;> exact ⟨query, mutation, subscription⟩
  | appoints operation type =>
      have only : ∀ known ∈ some type, holds known := by simpa [NamesRoot] using named
      cases operation with
      | query => exact ⟨named, mutation, subscription⟩
      | mutation => exact ⟨query, only, subscription⟩
      | subscription => exact ⟨query, mutation, only⟩
  | offers operation type =>
      have kept : ∀ root : Option String, (∀ known ∈ root, holds known) →
          ∀ known ∈ (root <|> some type), holds known := by
        intro root old known given
        cases root with
        | none => simpa [NamesRoot] using (by simpa using given : type = known) ▸ named
        | some first => exact old known given
      cases operation with
      | query => exact ⟨query, mutation, subscription⟩
      | mutation => exact ⟨query, kept _ mutation, subscription⟩
      | subscription => exact ⟨query, mutation, kept _ subscription⟩

theorem recordAll_roots {holds : String → Prop} {context : Context} {notes : List Note}
    (named : ∀ note ∈ notes, NamesRoot holds note) (roots : context.Roots holds) :
    (context.recordAll notes).Roots holds := by
  induction notes generalizing context with
  | nil => exact roots
  | cons note rest ih =>
      exact ih (fun other member => named other (by simp [member]))
        (record_roots (named note (by simp)) roots)

end Context

end Contexts

section Definitions

def typeDefinition? : Definition → Option TypeDefinition
  | .type definition => some definition
  | _ => none

def typeDefinitions (document : Document) : List TypeDefinition :=
  document.filterMap typeDefinition?

theorem mem_typeDefinitions {document : Document} {definition : TypeDefinition} :
    definition ∈ typeDefinitions document ↔ .type definition ∈ document := by
  simp only [typeDefinitions, List.mem_filterMap]
  constructor
  · rintro ⟨known, listed, same⟩
    cases known <;> cases same
    exact listed
  · intro listed
    exact ⟨_, listed, rfl⟩

theorem typeDefinitions_append (first second : Document) :
    typeDefinitions (first ++ second) = typeDefinitions first ++ typeDefinitions second :=
  List.filterMap_append

/-- The root types that schema blocks name. -/
def appointedTypes (document : Document) : List Name :=
  document.flatMap fun
    | .schema _ roots => roots.map Prod.snd
    | _ => []

/-- The types that a type implements or holds. -/
def relatedTypes : TypeBody → List Name
  | .object interfaces _ => interfaces
  | .interface interfaces _ => interfaces
  | .union members => members
  | _ => []

def enumValues : TypeBody → List Name
  | .enum values => values
  | _ => []

def writtenAttribute (settings : Settings) (member : Member) : Attribute :=
  ⟨attributeName member.name, (member.phrase settings).text⟩

def writtenAttributes (settings : Settings) : TypeBody → List Attribute
  | .enum values => enumMembers values
  | body => (members body).map (writtenAttribute settings)

def writtenClass (settings : Settings) (definition : TypeDefinition) : ClassDeclaration where
  name := definition.name.text
  base := baseOf definition.body.kind
  description := settings.described definition.description
  metaEntries := metaEntriesOf definition.body
  attributes := writtenAttributes settings definition.body

theorem mem_writtenAttributes {settings : Settings} {body : TypeBody} {assignment : Attribute} :
    assignment ∈ writtenAttributes settings body ↔
      (∃ (index : Nat) (value : Name), (enumValues body)[index]? = some value ∧
        assignment = ⟨safeIdentifier value.text, toString index⟩) ∨
      ∃ member ∈ members body, assignment = writtenAttribute settings member := by
  cases body with
  | enum values =>
      simp only [writtenAttributes, enumMembers, List.mem_map, Prod.exists, enumValues, members,
        List.not_mem_nil, false_and, exists_false, or_false, List.mem_zipIdx_iff_getElem?]
      constructor
      · rintro ⟨value, index, found, rfl⟩
        exact ⟨index, value, found, rfl⟩
      · rintro ⟨index, value, found, rfl⟩
        exact ⟨value, index, found, rfl⟩
  | _ =>
      show assignment ∈ (members _).map (writtenAttribute settings) ↔ _
      simp [enumValues, eq_comm]

theorem metaEntriesOf_spec {body : TypeBody} {entry : String × List String}
    (listed : entry ∈ metaEntriesOf body) :
    (entry.1 = "interfaces" ∨ entry.1 = "types") ∧ entry.2 ≠ [] ∧
      entry.2 = (relatedTypes body).map Name.text := by
  have only : ∀ (key : String) (names : List Name), entry ∈ nonEmptyEntry key names →
      entry.1 = key ∧ entry.2 ≠ [] ∧ entry.2 = names.map Name.text := by
    intro key names member
    unfold nonEmptyEntry at member
    split at member
    · cases member
    · rename_i filled
      rw [List.mem_singleton.mp member]
      exact ⟨rfl, by simpa using filled, rfl⟩
  cases body with
  | object interfaces fields =>
      obtain ⟨key, filled, names⟩ := only "interfaces" interfaces listed
      exact ⟨.inl key, filled, names⟩
  | union members =>
      obtain ⟨key, filled, names⟩ := only "types" members listed
      exact ⟨.inr key, filled, names⟩
  | _ => cases listed

/-- The symbols that a class statement and its values use. -/
def classSymbols (settings : Settings) (definition : TypeDefinition) : List String :=
  baseOf definition.body.kind :: (members definition.body).flatMap (Member.symbols settings)

def definitionNotes (settings : Settings) : Definition → List Note
  | .schema _ roots => appointments roots
  | .type definition =>
      (.uses (baseOf definition.body.kind) ::
        rootOffers definition.name.text definition.body.kind) ++
          ((members definition.body).flatMap (Member.symbols settings)).map .uses
  | _ => []

/-- No member of a type is refused. -/
def Admitted (settings : Settings) (document : Document) : Prop :=
  ∀ definition ∈ typeDefinitions document, ∀ member ∈ members definition.body,
    member.Admitted settings

theorem attributesOf_eq {settings : Settings} {body : TypeBody}
    (admitted : ∀ member ∈ members body, member.Admitted settings) :
    attributesOf settings body =
      ⟨((members body).flatMap (Member.symbols settings)).map .uses,
        .ok (writtenAttributes settings body)⟩ := by
  have each : Recorded.each (Member.toAttribute settings) (members body) =
      ⟨(members body).flatMap fun member => (member.symbols settings).map .uses,
        .ok ((members body).map (writtenAttribute settings))⟩ :=
    Recorded.each_eq fun member listed => Member.toAttribute_eq (admitted member listed)
  rw [← List.map_flatMap] at each
  cases body with
  | enum values => rfl
  | _ => exact each

theorem declare_eq {settings : Settings} {definition : Definition}
    (admitted : ∀ known ∈ typeDefinition? definition, ∀ member ∈ members known.body,
      member.Admitted settings) :
    declare settings definition =
      ⟨definitionNotes settings definition,
        .ok ((typeDefinition? definition).map (writtenClass settings))⟩ := by
  cases definition with
  | type known =>
      have attributes := attributesOf_eq (admitted known rfl)
      simp [declare, declareClass, attributes, definitionNotes, typeDefinition?, writtenClass]
  | _ => simp [declare, definitionNotes, typeDefinition?]

theorem declareAll_eq {settings : Settings} {document : Document}
    (admitted : Admitted settings document) :
    declareAll settings document =
      ⟨document.flatMap (definitionNotes settings),
        .ok (document.map fun definition =>
          (typeDefinition? definition).map (writtenClass settings))⟩ := by
  apply Recorded.each_eq
  intro definition listed
  apply declare_eq
  intro known given
  exact admitted known (List.mem_filterMap.mpr ⟨definition, listed, given⟩)

/-- All notes of a run, in order. -/
def moduleNotes (settings : Settings) (document : Document) : List Note :=
  wiringNotes settings ++ document.flatMap (definitionNotes settings)

def moduleContext (settings : Settings) (document : Document) : Context :=
  Context.recordAll {} (moduleNotes settings document)

def writtenModule (settings : Settings) (document : Document) : ClassModule where
  framework := settings.framework
  imports := (moduleContext settings document).symbols
  classes := (typeDefinitions document).map (writtenClass settings)
  schema := if settings.wiring then some (moduleContext settings document).wiring else none

theorem buildModule_eq {settings : Settings} {document : Document}
    (admitted : Admitted settings document) :
    buildModule settings document = .ok (writtenModule settings document) := by
  have declared := declareAll_eq admitted
  have classes : (document.map fun definition =>
      (typeDefinition? definition).map (writtenClass settings)).filterMap id =
        (typeDefinitions document).map (writtenClass settings) := by
    simp [typeDefinitions, List.filterMap_map, List.map_filterMap]
  simp only [buildModule, finalContext, declared, bind, Except.bind, pure, Except.pure, classes,
    writtenModule, moduleContext, moduleNotes]

/-- A class that is declared has all its members. -/
theorem admitted_of_declare {settings : Settings} {definition : TypeDefinition}
    {result : Option ClassDeclaration}
    (done : (declare settings (.type definition)).outcome = .ok result) :
    ∀ member ∈ members definition.body, member.Admitted settings := by
  intro member inside
  obtain ⟨declaration, classDone, _⟩ := Recorded.ok_of_bind_ok done
  obtain ⟨_, _, recorded⟩ := Recorded.ok_of_bind_ok classDone
  obtain ⟨_, _, offered⟩ := Recorded.ok_of_bind_ok recorded
  obtain ⟨attributes, each, _⟩ := Recorded.ok_of_bind_ok offered
  have members : (Recorded.each (Member.toAttribute settings) (members definition.body)).outcome =
      .ok attributes := by
    cases body : definition.body with
    | enum values => simp [body, members] at inside
    | _ => simpa [body, attributesOf] using each
  obtain ⟨result, made⟩ := Recorded.each_ok members member inside
  exact Member.admitted_of_toAttribute made

theorem admitted_of_buildModule {settings : Settings} {document : Document} {built : ClassModule}
    (done : buildModule settings document = .ok built) : Admitted settings document := by
  have declared : ∃ classes, (declareAll settings document).outcome = .ok classes := by
    cases outcome : (declareAll settings document).outcome with
    | error refusal => simp [buildModule, outcome, bind, Except.bind] at done
    | ok classes => exact ⟨classes, rfl⟩
  obtain ⟨classes, outcome⟩ := declared
  intro definition listed
  obtain ⟨value, first⟩ := Recorded.each_ok outcome _ (mem_typeDefinitions.mp listed)
  exact admitted_of_declare first

/-- A module is built exactly if no member is refused, and then it is the written one. -/
theorem buildModule_ok_iff {settings : Settings} {document : Document} {built : ClassModule} :
    buildModule settings document = .ok built ↔
      Admitted settings document ∧ built = writtenModule settings document := by
  constructor
  · intro done
    have admitted := admitted_of_buildModule done
    rw [buildModule_eq admitted] at done
    cases done
    exact ⟨admitted, rfl⟩
  · rintro ⟨admitted, rfl⟩
    exact buildModule_eq admitted

/-- Root types are named by schema blocks or by types. -/
theorem moduleContext_roots {holds : String → Prop} {settings : Settings} {document : Document}
    (query : holds "Query")
    (appointed : ∀ type ∈ appointedTypes document, holds type.text)
    (types : ∀ definition ∈ typeDefinitions document, holds definition.name.text) :
    (moduleContext settings document).Roots holds := by
  apply Context.recordAll_roots
  · intro note member
    rcases List.mem_append.mp member with wiring | inner
    · unfold wiringNotes at wiring
      split at wiring
      · rw [List.mem_singleton.mp wiring]
        trivial
      · cases wiring
    · obtain ⟨definition, listed, noted⟩ := List.mem_flatMap.mp inner
      cases definition with
      | schema description roots =>
          obtain ⟨root, inside, rfl⟩ := List.mem_map.mp noted
          exact appointed root.2
            (List.mem_flatMap.mpr ⟨_, listed, List.mem_map_of_mem inside⟩)
      | type known =>
          have named := types known (mem_typeDefinitions.mpr listed)
          simp only [definitionNotes, List.cons_append, List.mem_cons, List.mem_append,
            List.mem_map] at noted
          rcases noted with rfl | offer | ⟨symbol, _, rfl⟩
          · trivial
          · unfold rootOffers at offer
            split at offer
            · split at offer
              · rw [List.mem_singleton.mp offer]
                exact named
              split at offer
              · rw [List.mem_singleton.mp offer]
                exact named
              · cases offer
            · cases offer
          · trivial
      | _ => cases noted
  · exact ⟨query, by simp, by simp⟩

end Definitions

section Symbols

/-! All symbols are of the framework. -/

def frameworkSymbols : List String :=
  ["Schema", "ObjectType", "InputObjectType", "Interface", "Scalar", "Enum", "Union", "List",
    "NonNull", "Field", "InputField", "Argument"] ++ builtinScalars

/-- The symbols of calls, and the built-in scalars that stand in them as names. -/
def callSymbols : List String :=
  ["List", "NonNull", "Field", "InputField", "Argument"] ++ builtinScalars

theorem builtin_callSymbol {name : String} (builtin : isBuiltinScalar name = true) :
    name ∈ callSymbols :=
  List.mem_append_right _ (by simpa [isBuiltinScalar] using builtin)

theorem typeSymbols_called {type : TypeRef} {symbol : String}
    (used : symbol ∈ typeSymbols type) : symbol ∈ callSymbols := by
  induction type with
  | leaf name =>
      unfold typeSymbols at used
      split at used
      · rename_i builtin
        rw [List.mem_singleton.mp used]
        exact builtin_callSymbol builtin
      · cases used
  | list item ih =>
      rcases List.mem_cons.mp used with rfl | inner
      · decide
      · exact ih inner
  | nonNull item ih =>
      rcases List.mem_cons.mp used with rfl | inner
      · decide
      · exact ih inner

theorem Declarator.symbols_called {declarator : Declarator} {symbol : String}
    (head : declarator.head ∈ callSymbols) (used : symbol ∈ declarator.symbols) :
    symbol ∈ callSymbols := by
  rcases List.mem_cons.mp used with rfl | inner
  · exact head
  · obtain ⟨type, _, inside⟩ := List.mem_flatMap.mp inner
    exact typeSymbols_called inside

theorem Declarator.outer_called {container : String} (known : container ∈ callSymbols)
    (type : TypeRef) : (Declarator.outer container type).head ∈ callSymbols := by
  cases type with
  | leaf name =>
      by_cases builtin : isBuiltinScalar name.text = true
      · simpa [Declarator.outer, builtin] using builtin_callSymbol builtin
      · simpa [Declarator.outer, builtin] using known
  | list item =>
      show "List" ∈ callSymbols
      decide
  | nonNull item =>
      show "NonNull" ∈ callSymbols
      decide

theorem Member.symbols_called {settings : Settings} {member : Member} {symbol : String}
    (used : symbol ∈ member.symbols settings) : symbol ∈ callSymbols := by
  rcases List.mem_append.mp used with argument | own
  · obtain ⟨argument, _, inside⟩ := List.mem_flatMap.mp argument
    apply Declarator.symbols_called _ inside
    unfold argumentDeclarator
    split
    · show "Argument" ∈ callSymbols
      decide
    · exact Declarator.outer_called (by decide) argument.type
  · apply Declarator.symbols_called _ own
    apply Declarator.outer_called
    cases member with
    | field source =>
        show "Field" ∈ callSymbols
        decide
    | input source =>
        show "InputField" ∈ callSymbols
        decide

theorem Member.symbols_framework {settings : Settings} {member : Member} {symbol : String}
    (used : symbol ∈ member.symbols settings) : symbol ∈ frameworkSymbols := by
  have all : ∀ symbol ∈ callSymbols, symbol ∈ frameworkSymbols := by decide
  exact all symbol (symbols_called used)

theorem baseOf_framework (kind : TypeKind) : baseOf kind ∈ frameworkSymbols := by
  cases kind <;> decide

/-- No class uses the symbol of the wiring, whatever names the schema has. -/
theorem schema_not_mem_classSymbols (settings : Settings) (definition : TypeDefinition) :
    "Schema" ∉ classSymbols settings definition := by
  intro used
  rcases List.mem_cons.mp used with base | inner
  · cases kind : definition.body.kind <;> simp [kind, baseOf] at base
  · obtain ⟨member, _, inside⟩ := List.mem_flatMap.mp inner
    exact absurd (Member.symbols_called inside) (by decide)

/-- A note of a symbol comes from the wiring or from a class. -/
theorem uses_moduleNotes {settings : Settings} {document : Document} {symbol : String} :
    .uses symbol ∈ moduleNotes settings document ↔
      (settings.wiring = true ∧ symbol = "Schema") ∨
        ∃ definition ∈ typeDefinitions document, symbol ∈ classSymbols settings definition := by
  have wiring : Note.uses symbol ∈ wiringNotes settings ↔
      settings.wiring = true ∧ symbol = "Schema" := by
    unfold wiringNotes
    split <;> simp [*]
  have definition : ∀ definition, Note.uses symbol ∈ definitionNotes settings definition ↔
      ∃ known ∈ typeDefinition? definition, symbol ∈ classSymbols settings known := by
    intro definition
    cases definition with
    | type known =>
        have offers : Note.uses symbol ∉ rootOffers known.name.text known.body.kind := by
          unfold rootOffers
          split
          · split
            · simp
            split <;> simp
          · simp
        simp [definitionNotes, typeDefinition?, classSymbols, offers]
    | schema description roots =>
        simp [definitionNotes, typeDefinition?, appointments]
    | _ => simp [definitionNotes, typeDefinition?]
  simp only [moduleNotes, List.mem_append, wiring, List.mem_flatMap, definition]
  apply or_congr_right
  constructor
  · rintro ⟨outer, listed, known, given, used⟩
    exact ⟨known, List.mem_filterMap.mpr ⟨outer, listed, given⟩, used⟩
  · rintro ⟨known, listed, used⟩
    exact ⟨_, mem_typeDefinitions.mp listed, known, rfl, used⟩

theorem mem_imports {settings : Settings} {document : Document} {symbol : String} :
    symbol ∈ (writtenModule settings document).imports ↔
      (settings.wiring = true ∧ symbol = "Schema") ∨
        ∃ definition ∈ typeDefinitions document, symbol ∈ classSymbols settings definition := by
  simp only [writtenModule, moduleContext, Context.mem_recordAll_symbols, List.not_mem_nil,
    false_or, uses_moduleNotes]

theorem imports_ne_nil {settings : Settings} {document : Document}
    (filled : typeDefinitions document ≠ []) : (writtenModule settings document).imports ≠ [] := by
  obtain ⟨definition, others, shape⟩ := List.exists_cons_of_ne_nil filled
  have base : baseOf definition.body.kind ∈ (writtenModule settings document).imports :=
    mem_imports.mpr (.inr ⟨definition, by simp [shape], by simp [classSymbols]⟩)
  exact List.ne_nil_of_mem base

theorem imports_framework {settings : Settings} {document : Document} {symbol : String}
    (imported : symbol ∈ (writtenModule settings document).imports) :
    symbol ∈ frameworkSymbols := by
  rcases mem_imports.mp imported with ⟨_, rfl⟩ | ⟨definition, _, used⟩
  · decide
  · rcases List.mem_cons.mp used with rfl | inner
    · exact baseOf_framework _
    · obtain ⟨member, _, inside⟩ := List.mem_flatMap.mp inner
      exact Member.symbols_framework inside

end Symbols

end SchemaClasses.Build
