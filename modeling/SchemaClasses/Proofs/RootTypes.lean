import SchemaClasses.Proofs.BuiltModule

/-!
Root types. A schema block names them outright, and of all entries for an operation the last
one counts. A type that is a root by its name alone counts only where there is no entry, be
it before or after the blocks. So the wiring does not depend on where the blocks stand.
-/

namespace SchemaClasses.Build

open Schema Naming Output

section Contexts

/-! The notes of a run, as far as they bear on one operation. -/

namespace Context

def root (context : Context) : Operation → Option String
  | .query => some context.query
  | .mutation => context.mutation
  | .subscription => context.subscription

def appointed? (operation : Operation) : Note → Option String
  | .appoints named type => if named = operation then some type else none
  | _ => none

def offered? (operation : Operation) : Note → Option String
  | .offers named type => if named = operation then some type else none
  | _ => none

theorem filterMap_symbols {notes : List Note} {read : Note → Option String}
    (symbols : ∀ note ∈ notes, ∃ symbol, note = .uses symbol)
    (quiet : ∀ symbol, read (.uses symbol) = none) : notes.filterMap read = [] := by
  rw [List.filterMap_eq_nil_iff]
  intro note listed
  obtain ⟨symbol, rfl⟩ := symbols note listed
  exact quiet symbol

theorem record_root (context : Context) (note : Note) (operation : Operation) :
    (context.record note).root operation =
      (appointed? operation note).or ((context.root operation).or (offered? operation note)) := by
  cases note with
  | uses used =>
      simp only [record, addSymbol, appointed?, offered?, Option.none_or, Option.or_none]
      split <;> rfl
  | appoints named type =>
      cases named <;> cases operation <;> simp [record, appoint, root, appointed?, offered?]
  | offers named type =>
      cases named <;> cases operation <;> simp [record, offer, root, appointed?, offered?]

/-- The last appointment counts, then what the context held before, then the first offer. -/
theorem recordAll_root (context : Context) (notes : List Note) (operation : Operation) :
    (context.recordAll notes).root operation =
      (notes.filterMap (appointed? operation)).getLast?.or
        ((context.root operation).or (notes.filterMap (offered? operation)).head?) := by
  induction notes generalizing context with
  | nil => simp [recordAll]
  | cons note rest ih =>
      change ((context.record note).recordAll rest).root operation = _
      rw [ih, record_root]
      cases appointed : appointed? operation note <;> cases offered : offered? operation note <;>
        simp [appointed, offered, List.getLast?_cons]

end Context

end Contexts

section Documents

def rootEntries : Definition → List (Operation × Name)
  | .schema _ roots => roots
  | _ => []

def entryType? (operation : Operation) (entry : Operation × Name) : Option String :=
  if entry.1 = operation then some entry.2.text else none

/-- The type of the last entry for the operation over all schema blocks. -/
def lastEntry (operation : Operation) (document : Document) : Option String :=
  ((document.flatMap rootEntries).filterMap (entryType? operation)).getLast?

def isObjectNamed (name : String) : Definition → Bool
  | .type definition => definition.body.kind = .object && definition.name.text = name
  | _ => false

/-- The name itself, if some object type has it. -/
def objectNamed (name : String) (document : Document) : Option String :=
  if document.any (isObjectNamed name) then some name else none

/-- Notes on symbols aside, a type only makes offers. -/
theorem filterMap_typeNotes {settings : Settings} {definition : TypeDefinition}
    {read : Note → Option String} (quiet : ∀ symbol, read (.uses symbol) = none) :
    (definitionNotes settings (.type definition)).filterMap read =
      (rootOffers definition.name.text definition.body.kind).filterMap read := by
  simp [definitionNotes, quiet]

theorem appointed_definition (settings : Settings) (operation : Operation)
    (definition : Definition) :
    (definitionNotes settings definition).filterMap (Context.appointed? operation) =
      (rootEntries definition).filterMap (entryType? operation) := by
  cases definition with
  | schema description roots => exact List.filterMap_map
  | type known =>
      rw [filterMap_typeNotes fun _ => rfl]
      unfold rootOffers
      split
      · split
        · rfl
        split <;> rfl
      · rfl
  | _ => rfl

theorem offered_definition (settings : Settings) {operation : Operation} {name : String}
    (root : (operation, name) ∈ [(.mutation, "Mutation"), (.subscription, "Subscription")])
    (definition : Definition) :
    ((definitionNotes settings definition).filterMap (Context.offered? operation)).head? =
      if isObjectNamed name definition then some name else none := by
  cases definition with
  | schema description roots =>
      simp [definitionNotes, appointments, isObjectNamed, Context.offered?]
  | type known =>
      rw [filterMap_typeNotes fun _ => rfl]
      cases kind : known.body.kind with
      | object =>
          simp only [List.mem_cons, Prod.mk.injEq, List.not_mem_nil, or_false] at root
          -- The two names differ, so a type makes at most one offer.
          by_cases mutation : known.name.text = "Mutation"
          · rcases root with ⟨rfl, rfl⟩ | ⟨rfl, rfl⟩ <;>
              simp [rootOffers, isObjectNamed, kind, mutation, Context.offered?]
          · by_cases subscription : known.name.text = "Subscription"
            · rcases root with ⟨rfl, rfl⟩ | ⟨rfl, rfl⟩ <;>
                simp [rootOffers, isObjectNamed, kind, subscription, Context.offered?]
            · rcases root with ⟨rfl, rfl⟩ | ⟨rfl, rfl⟩ <;>
                simp [rootOffers, isObjectNamed, kind, mutation, subscription]
      | _ => simp [rootOffers, isObjectNamed, kind]
  | _ => rfl

theorem findSome_objectNamed (name : String) (document : Document) :
    (document.findSome? fun definition =>
      if isObjectNamed name definition then some name else none) = objectNamed name document := by
  induction document with
  | nil => rfl
  | cons definition rest ih =>
      cases known : isObjectNamed name definition <;>
        simp [known, objectNamed, ih]

theorem moduleContext_root (settings : Settings) (operation : Operation) (document : Document) :
    (moduleContext settings document).root operation =
      (lastEntry operation document).or ((Context.root {} operation).or
        (document.findSome? fun definition => ((definitionNotes settings definition).filterMap
          (Context.offered? operation)).head?)) := by
  have wiring : ∀ note ∈ wiringNotes settings, ∃ symbol, note = .uses symbol := by
    unfold wiringNotes
    split <;> simp
  rw [moduleContext, Context.recordAll_root, moduleNotes, List.filterMap_append,
    List.filterMap_append, Context.filterMap_symbols wiring fun _ => rfl,
    Context.filterMap_symbols wiring fun _ => rfl, List.nil_append, List.nil_append,
    List.filterMap_flatMap, List.filterMap_flatMap, List.head?_flatMap]
  simp only [appointed_definition, lastEntry, List.filterMap_flatMap]

/-- The root types, read off the document. -/
def rootTypes (document : Document) : Wiring where
  query := (lastEntry .query document).getD "Query"
  mutation := (lastEntry .mutation document).or (objectNamed "Mutation" document)
  subscription := (lastEntry .subscription document).or (objectNamed "Subscription" document)

theorem moduleContext_wiring (settings : Settings) (document : Document) :
    (moduleContext settings document).wiring = rootTypes document := by
  have query := moduleContext_root settings .query document
  have mutation := moduleContext_root settings .mutation document
  have subscription := moduleContext_root settings .subscription document
  simp only [offered_definition settings (List.mem_cons_self), findSome_objectNamed] at mutation
  simp only [offered_definition settings (List.mem_cons_of_mem _ List.mem_cons_self),
    findSome_objectNamed] at subscription
  simp only [Context.wiring, rootTypes, Wiring.mk.injEq]
  refine ⟨?_, mutation, subscription⟩
  cases entry : lastEntry .query document with
  | none => simpa [Context.root, entry] using query
  | some type => simpa [Context.root, entry] using query

end Documents

section Order

/-! What the wiring does not depend on. -/

def isSchemaBlock : Definition → Bool
  | .schema _ _ => true
  | _ => false

/-- Schema blocks and object types. -/
def mayNameRoot : Definition → Bool
  | .schema _ _ => true
  | .type definition => definition.body.kind = .object
  | _ => false

theorem lastEntry_filter {keep : Definition → Bool}
    (kept : ∀ definition, isSchemaBlock definition = true → keep definition = true)
    (operation : Operation) (document : Document) :
    lastEntry operation (document.filter keep) = lastEntry operation document := by
  have entries : (document.filter keep).flatMap rootEntries = document.flatMap rootEntries := by
    induction document with
    | nil => rfl
    | cons definition rest ih =>
        by_cases keeps : keep definition = true
        · rw [List.filter_cons_of_pos keeps, List.flatMap_cons, List.flatMap_cons, ih]
        · have none : rootEntries definition = [] := by
            cases definition with
            | schema description roots => exact absurd (kept _ rfl) keeps
            | _ => rfl
          rw [List.filter_cons_of_neg keeps, List.flatMap_cons, ih, none, List.nil_append]
  rw [lastEntry, entries, lastEntry]

theorem objectNamed_filter (name : String) (document : Document) :
    objectNamed name (document.filter mayNameRoot) = objectNamed name document := by
  have same : ∀ definition, (mayNameRoot definition && isObjectNamed name definition) =
      isObjectNamed name definition := by
    intro definition
    cases definition <;> simp [mayNameRoot, isObjectNamed]
  simp only [objectNamed, List.any_filter, same]

theorem rootTypes_filter (document : Document) :
    rootTypes (document.filter mayNameRoot) = rootTypes document := by
  have kept : ∀ definition, isSchemaBlock definition = true → mayNameRoot definition = true := by
    intro definition block
    cases definition with
    | schema description roots => rfl
    | _ => cases block
  simp only [rootTypes, lastEntry_filter kept, objectNamed_filter]

theorem rootTypes_perm {first second : Document} (same : first.Perm second)
    (blocks : first.filter isSchemaBlock = second.filter isSchemaBlock) :
    rootTypes first = rootTypes second := by
  have entries : ∀ operation, lastEntry operation first = lastEntry operation second := by
    intro operation
    rw [← lastEntry_filter (fun _ block => block) operation first, blocks,
      lastEntry_filter fun _ block => block]
  simp only [rootTypes, entries, objectNamed, same.any_eq]

theorem admitted_perm {settings : Settings} {first second : Document} (same : first.Perm second)
    (admitted : Admitted settings second) : Admitted settings first :=
  fun definition listed => admitted definition ((same.filterMap _).mem_iff.mp listed)

theorem writtenModule_schema {settings : Settings} (wired : settings.wiring = true)
    (document : Document) :
    (writtenModule settings document).schema = some (rootTypes document) := by
  simp [writtenModule, wired, moduleContext_wiring]

/-- The wiring names the types of the last entries, and by default those that are named like
the operation. It stays the same when definitions change places but the schema blocks keep
their order, and whatever is added or dropped besides schema blocks and object types. -/
theorem buildModule_wiring (settings : Settings) (document : Document) (built : ClassModule)
    (wired : settings.wiring = true) (done : buildModule settings document = .ok built) :
    built.schema = some (rootTypes document) ∧
    (∀ other : Document, other.Perm document →
      other.filter isSchemaBlock = document.filter isSchemaBlock →
        ∃ rebuilt, buildModule settings other = .ok rebuilt ∧ rebuilt.schema = built.schema) ∧
    ∀ (other : Document) (rebuilt : ClassModule), buildModule settings other = .ok rebuilt →
      other.filter mayNameRoot = document.filter mayNameRoot → rebuilt.schema = built.schema := by
  obtain ⟨admitted, rfl⟩ := buildModule_ok_iff.mp done
  refine ⟨writtenModule_schema wired document, ?_, ?_⟩
  · intro other same blocks
    refine ⟨_, buildModule_eq (admitted_perm same admitted), ?_⟩
    rw [writtenModule_schema wired, writtenModule_schema wired, rootTypes_perm same blocks]
  · intro other rebuilt redone same
    obtain ⟨_, rfl⟩ := buildModule_ok_iff.mp redone
    rw [writtenModule_schema wired, writtenModule_schema wired, ← rootTypes_filter other, same,
      rootTypes_filter]

/-- A type that is named like an operation, before two schema blocks that overrule it and
each other, and two definitions that have the name of a root and are none. -/
def overruledSchema : Document :=
  [.type ⟨named "Mutation", none, .object [] []⟩,
    .schema none [(.query, named "Reading"), (.mutation, named "Drafting")],
    .type ⟨named "Subscription", none, .interface [] []⟩,
    .schema none [(.mutation, named "Writing"), (.mutation, named "Editing")],
    .typeExtension .object (named "Subscription")]

theorem wiring_overruledSchema :
    ∃ built rebuilt, buildModule {} overruledSchema = .ok built ∧
      built.schema = some ⟨"Reading", some "Editing", none⟩ ∧
      overruledSchema.rotateRight.Perm overruledSchema ∧
      buildModule {} overruledSchema.rotateRight = .ok rebuilt ∧
      rebuilt.schema = built.schema := by
  have made : buildModule {} overruledSchema = .ok (writtenModule {} overruledSchema) :=
    buildModule_eq fun _ _ member _ => member.admitted_of_open rfl
  obtain ⟨read, moved, _⟩ := buildModule_wiring {} overruledSchema _ rfl made
  have same : overruledSchema.rotateRight.Perm overruledSchema := by decide +kernel
  obtain ⟨rebuilt, remade, kept⟩ := moved _ same (by decide +kernel)
  refine ⟨_, rebuilt, made, ?_, same, remade, kept⟩
  rw [read]
  decide +kernel

end Order

end SchemaClasses.Build
