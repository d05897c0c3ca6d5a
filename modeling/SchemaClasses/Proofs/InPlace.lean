import SchemaClasses.Build.Session
import SchemaClasses.Proofs.BuiltModule

/-!
Constructions in place. Here one context is passed from hand to hand: symbols are added to
it as they are needed, a type looks into it before it takes up a root, and a refusal leaves
it as it stands. To record notes first and to enter them in a context afterwards comes to
the same thing, outcome and context alike.
-/

namespace SchemaClasses.Build

open Schema Naming Output

/-- A construction that reads and changes the context at hand. -/
abbrev InPlace := ExceptT Refusal (StateM Context)

namespace InPlace

section Types

def addSymbol (symbol : String) : InPlace Unit :=
  modify fun context => context.addSymbol symbol

def resolveType : TypeTree → InPlace String
  | .nonNull item => do
      addSymbol "NonNull"
      return "NonNull(" ++ (← resolveType item) ++ ")"
  | .list item => do
      addSymbol "List"
      return "List(" ++ (← resolveType item) ++ ")"
  | .leaf (.named name) => do
      if isBuiltinScalar name then addSymbol name
      return name
  | .leaf (.foreign kind) => throw (.malformedType kind)

def declareType (type : TypeTree) (keywords container : String) : InPlace String :=
  match type with
  | .nonNull item => do
      addSymbol "NonNull"
      return "NonNull(" ++ (← resolveType item) ++ trailing keywords ++ ")"
  | .list item => do
      addSymbol "List"
      return "List(" ++ (← resolveType item) ++ trailing keywords ++ ")"
  | .leaf (.named name) => do
      if isBuiltinScalar name then
        addSymbol name
        return name ++ "(" ++ keywords ++ ")"
      addSymbol container
      return container ++ "(" ++ name ++ trailing keywords ++ ")"
  | .leaf (.foreign kind) => throw (.malformedType kind)

end Types

section Members

def argumentDeclaration (settings : Settings) (argument : InputValue) : InPlace String :=
  declareType (TypeRef.tree argument.type)
    (renderKeywords (descriptionKeyword settings argument.description)) "Argument"

def mappedDeclaration (settings : Settings) (argument : InputValue) : InPlace String := do
  addSymbol "Argument"
  let type ← resolveType (TypeRef.tree argument.type)
  return "Argument(" ++ type ++
    trailing (renderKeywords (descriptionKeyword settings argument.description)) ++ ")"

/-- One argument more, next to the keywords and the mapping of those before it. -/
def addArgument (settings : Settings) (field : String) (reserved : List String)
    (written : List Keyword × Entries String) (argument : InputValue) :
    InPlace (List Keyword × Entries String) := do
  ofExcept (checkArgument settings field argument)
  if isColliding argument.name.text reserved then
    let value ← mappedDeclaration settings argument
    return (written.1, written.2.put argument.name.text value)
  else
    let value ← argumentDeclaration settings argument
    return (written.1 ++ [⟨argument.name.text, value⟩], written.2)

def keywords (settings : Settings) (member : Member) : InPlace (List Keyword) := do
  let own := member.ownKeywords settings
  let reserved := own.map Keyword.name
  let (direct, mapped) ←
    member.arguments.foldlM (addArgument settings member.name reserved) (own, [])
  return direct ++ argsKeyword mapped

def toAttribute (settings : Settings) (member : Member) : InPlace Attribute := do
  let keywords ← keywords settings member
  let value ← declareType (TypeRef.tree member.type) (renderKeywords keywords) member.container
  return ⟨attributeName member.name, value⟩

end Members

section Definitions

def attributesOf (settings : Settings) : TypeBody → InPlace (List Attribute)
  | .enum values => return enumMembers values
  | body => (members body).mapM (toAttribute settings)

/-- A type takes up a root by its name only where the context has none. -/
def adoptRoot (name : String) : TypeKind → InPlace Unit
  | .object => do
      if name = "Mutation" && (← get).mutation.isNone then
        modify fun context => { context with mutation := some name }
      if name = "Subscription" && (← get).subscription.isNone then
        modify fun context => { context with subscription := some name }
  | _ => return

def declareClass (settings : Settings) (definition : TypeDefinition) :
    InPlace ClassDeclaration := do
  addSymbol (baseOf definition.body.kind)
  adoptRoot definition.name.text definition.body.kind
  let attributes ← attributesOf settings definition.body
  return {
    name := definition.name.text
    base := baseOf definition.body.kind
    description := settings.described definition.description
    metaEntries := metaEntriesOf definition.body
    attributes }

def declare (settings : Settings) : Definition → InPlace (Option ClassDeclaration)
  | .schema _ roots => do
      roots.forM fun root => modify fun context => context.appoint root.2.text root.1
      return none
  | .type definition => do
      let declaration ← declareClass settings definition
      return some declaration
  | _ => return none

/-- A whole module, in one pass over one context. -/
def buildModule (settings : Settings) (document : Document) : InPlace ClassModule := do
  if settings.wiring then addSymbol "Schema"
  let declarations ← document.mapM (declare settings)
  let context ← get
  return {
    framework := settings.framework
    imports := context.symbols
    classes := declarations.filterMap id
    schema := if settings.wiring then some context.wiring else none }

end Definitions

def runOn {α : Type} (construction : InPlace α) (context : Context) :
    Except Refusal α × Context :=
  (ExceptT.run construction).run context

end InPlace

namespace Recorded

variable {α β : Type}

def inPlace (construction : Recorded α) : InPlace α :=
  ExceptT.mk fun context => construction.runIn context

theorem inPlace_pure (value : α) : (pure value : Recorded α).inPlace = pure value := rfl

theorem inPlace_bind (first : Recorded α) (next : α → Recorded β) :
    (first >>= next).inPlace = first.inPlace >>= fun value => (next value).inPlace := by
  funext context
  obtain ⟨notes, outcome⟩ := first
  cases outcome with
  | error refusal => rfl
  | ok value =>
      change (_, context.recordAll (notes ++ (next value).notes)) = _
      rw [Context.recordAll_append]
      rfl

theorem inPlace_uses (symbol : String) : (uses symbol).inPlace = InPlace.addSymbol symbol := rfl

theorem inPlace_ofExcept (outcome : Except Refusal α) :
    (Recorded.ofExcept outcome).inPlace = MonadExcept.ofExcept outcome := by
  cases outcome <;> rfl

theorem inPlace_each (construct : α → Recorded β) (items : List α) :
    (each construct items).inPlace = items.mapM fun item => (construct item).inPlace := by
  induction items with
  | nil => rfl
  | cons item rest ih => simp only [each, inPlace_bind, ih, inPlace_pure, List.mapM_cons]

end Recorded

open Recorded

theorem resolveType_inPlace (type : TypeTree) :
    (resolveType type).inPlace = InPlace.resolveType type := by
  induction type with
  | leaf value =>
      cases value with
      | named name =>
          rw [resolveType, InPlace.resolveType]
          split <;> rfl
      | foreign kind => rfl
  | list item ih =>
      simp only [resolveType, InPlace.resolveType, inPlace_bind, inPlace_uses, ih, inPlace_pure]
  | nonNull item ih =>
      simp only [resolveType, InPlace.resolveType, inPlace_bind, inPlace_uses, ih, inPlace_pure]

theorem declareType_inPlace (type : TypeTree) (keywords container : String) :
    (declareType type keywords container).inPlace =
      InPlace.declareType type keywords container := by
  cases type with
  | leaf value =>
      cases value with
      | named name =>
          simp only [declareType, InPlace.declareType]
          split <;> rfl
      | foreign kind => rfl
  | list item =>
      simp only [declareType, InPlace.declareType, inPlace_bind, inPlace_uses,
        resolveType_inPlace, inPlace_pure]
  | nonNull item =>
      simp only [declareType, InPlace.declareType, inPlace_bind, inPlace_uses,
        resolveType_inPlace, inPlace_pure]

theorem mappedDeclaration_inPlace (settings : Settings) (argument : InputValue) :
    (mappedDeclaration settings argument).inPlace =
      InPlace.mappedDeclaration settings argument := by
  simp only [mappedDeclaration, InPlace.mappedDeclaration, inPlace_bind, inPlace_uses,
    resolveType_inPlace, inPlace_pure]

theorem argumentDeclaration_inPlace (settings : Settings) (argument : InputValue) :
    (argumentDeclaration settings argument).inPlace =
      InPlace.argumentDeclaration settings argument :=
  declareType_inPlace _ _ _

theorem argumentKeywords_inPlace (settings : Settings) (field : String) (reserved : List String)
    (arguments : List InputValue) (direct : List Keyword) (mapped : Entries String) :
    (do
      let written ← arguments.foldlM (InPlace.addArgument settings field reserved) (direct, mapped)
      return written.1 ++ argsKeyword written.2) =
    (do
      let others ← (argumentKeywords settings field reserved arguments mapped).inPlace
      return direct ++ others) := by
  induction arguments generalizing direct mapped with
  | nil => simp only [argumentKeywords, List.foldlM_nil, inPlace_pure, pure_bind]
  | cons argument rest ih =>
      by_cases collides : isColliding argument.name.text reserved = true
      · simp only [List.foldlM_cons, InPlace.addArgument, argumentKeywords, collides, if_true,
          bind_assoc, pure_bind, ih, inPlace_bind, inPlace_ofExcept, mappedDeclaration_inPlace]
      · simp only [List.foldlM_cons, InPlace.addArgument, argumentKeywords, collides,
          Bool.false_eq_true, if_false, bind_assoc, pure_bind, ih, inPlace_bind,
          inPlace_ofExcept, argumentDeclaration_inPlace, inPlace_pure, List.append_assoc]
        rfl

theorem Member.keywords_inPlace (settings : Settings) (member : Member) :
    (member.keywords settings).inPlace = InPlace.keywords settings member := by
  have run := argumentKeywords_inPlace settings member.name
    ((member.ownKeywords settings).map Keyword.name) member.arguments
    (member.ownKeywords settings) []
  simp only [Member.keywords, inPlace_bind, inPlace_pure]
  exact run.symm

theorem Member.toAttribute_inPlace (settings : Settings) (member : Member) :
    (member.toAttribute settings).inPlace = InPlace.toAttribute settings member := by
  simp only [Member.toAttribute, InPlace.toAttribute, inPlace_bind, Member.keywords_inPlace,
    declareType_inPlace, inPlace_pure]

theorem attributesOf_inPlace (settings : Settings) (body : TypeBody) :
    (attributesOf settings body).inPlace = InPlace.attributesOf settings body := by
  have each := inPlace_each (Member.toAttribute settings) (members body)
  simp only [Member.toAttribute_inPlace] at each
  cases body with
  | enum values => rfl
  | _ => exact each

theorem rootOffers_inPlace (name : String) (kind : TypeKind) :
    (record (rootOffers name kind)).inPlace = InPlace.adoptRoot name kind := by
  cases kind with
  | object =>
      funext context
      obtain ⟨symbols, query, mutation, subscription⟩ := context
      by_cases isMutation : name = "Mutation"
      · subst isMutation
        cases mutation <;> rfl
      · by_cases isSubscription : name = "Subscription"
        · subst isSubscription
          cases subscription <;> rfl
        · have offers : rootOffers name .object = [] := by
            simp [rootOffers, isMutation, isSubscription]
          simp only [offers, InPlace.adoptRoot, isMutation, isSubscription, decide_false,
            Bool.false_and]
          rfl
  | _ => rfl

theorem appointments_inPlace (roots : List (Operation × Name)) :
    (record (appointments roots)).inPlace =
      roots.forM fun root => modify fun context => context.appoint root.2.text root.1 := by
  induction roots with
  | nil => rfl
  | cons root rest ih =>
      have first : record (appointments (root :: rest)) = (do
          record [.appoints root.1 root.2.text]
          record (appointments rest)) := rfl
      rw [first, inPlace_bind, ih]
      rfl

theorem declareClass_inPlace (settings : Settings) (definition : TypeDefinition) :
    (declareClass settings definition).inPlace = InPlace.declareClass settings definition := by
  simp only [declareClass, InPlace.declareClass, inPlace_bind, inPlace_uses, rootOffers_inPlace,
    attributesOf_inPlace, inPlace_pure]

theorem declare_inPlace (settings : Settings) (definition : Definition) :
    (declare settings definition).inPlace = InPlace.declare settings definition := by
  cases definition with
  | schema description roots =>
      simp only [declare, InPlace.declare, inPlace_bind, appointments_inPlace, inPlace_pure]
  | type known =>
      simp only [declare, InPlace.declare, inPlace_bind, declareClass_inPlace, inPlace_pure]
  | _ => rfl

theorem declareAll_inPlace (settings : Settings) (document : Document) :
    (declareAll settings document).inPlace = document.mapM (InPlace.declare settings) := by
  simp only [declareAll, inPlace_each, declare_inPlace]

/-- Both ways give the same module, or the same refusal. -/
theorem buildModule_inPlace (settings : Settings) (document : Document) :
    buildModule settings document = ((InPlace.buildModule settings document).runOn {}).1 := by
  rw [InPlace.buildModule, ← declareAll_inPlace, buildModule, finalContext, wiringNotes]
  generalize declareAll settings document = declared
  obtain ⟨notes, outcome⟩ := declared
  cases outcome with
  | error refusal => cases settings.wiring <;> rfl
  | ok declarations => cases settings.wiring <;> rfl

end SchemaClasses.Build
