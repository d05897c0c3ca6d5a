import SchemaClasses.Proofs.InPlace
import SchemaClasses.Proofs.RootTypes

/-!
Sessions: steps of any kind one after another on one context, under settings that change in
between, some of them refused halfway. Symbols are only ever added, root types change only
where definitions are declared, and the answer to a step shows nothing of what was done
before it.
-/

namespace SchemaClasses.Build

open Schema Naming Output

section Steps

/-! Steps in place. -/

def InPlace.perform (settings : Settings) : Step → InPlace Answer
  | .addSymbol symbol => do
      addSymbol symbol
      return .nothing
  | .configure _ => return .nothing
  | .resolveType type => do
      let text ← resolveType type
      return .text text
  | .declareType type extra container => do
      let text ← declareType type extra container
      return .text text
  | .namedType type => do
      let name ← ofExcept (namedType type)
      return .text name
  | .keywords source => do
      let written ← keywords settings source
      return .text (renderKeywords written)
  | .argument source => do
      let text ← argumentDeclaration settings source
      return .text text
  | .member source => do
      let result ← toAttribute settings source
      return .member result
  | .members sources => do
      let results ← sources.mapM (toAttribute settings)
      return .members results
  | .declare document => do
      let results ← document.mapM (declare settings)
      return .classes results

open Recorded in
theorem perform_inPlace (settings : Settings) (step : Step) :
    (step.perform settings).inPlace = InPlace.perform settings step := by
  cases step with
  | addSymbol symbol => rfl
  | configure setting => rfl
  | resolveType type =>
      simp only [Step.perform, InPlace.perform, inPlace_bind, resolveType_inPlace, inPlace_pure]
  | declareType type extra container =>
      simp only [Step.perform, InPlace.perform, inPlace_bind, declareType_inPlace, inPlace_pure]
  | namedType type =>
      simp only [Step.perform, InPlace.perform, inPlace_bind, inPlace_ofExcept, inPlace_pure]
  | keywords source =>
      simp only [Step.perform, InPlace.perform, inPlace_bind, Member.keywords_inPlace,
        inPlace_pure]
  | argument source =>
      simp only [Step.perform, InPlace.perform, inPlace_bind, argumentDeclaration_inPlace,
        inPlace_pure]
  | member source =>
      simp only [Step.perform, InPlace.perform, inPlace_bind, Member.toAttribute_inPlace,
        inPlace_pure]
  | members sources =>
      simp only [Step.perform, InPlace.perform, inPlace_bind, inPlace_each,
        Member.toAttribute_inPlace, inPlace_pure]
  | declare document =>
      simp only [Step.perform, InPlace.perform, inPlace_bind, declareAll_inPlace, inPlace_pure]

theorem runIn_perform (settings : Settings) (step : Step) (context : Context) :
    (step.perform settings).runIn context = (InPlace.perform settings step).runOn context := by
  rw [← perform_inPlace]
  rfl

end Steps

section Symbols

/-! Notes on symbols alone. -/

namespace Recorded

variable {α β : Type}

/-- A construction that notes symbols and nothing else, whether or not it is refused. -/
def OnlyUses (construction : Recorded α) : Prop :=
  ∀ note ∈ construction.notes, ∃ symbol, note = .uses symbol

theorem onlyUses_quiet (outcome : Except Refusal α) : OnlyUses ⟨[], outcome⟩ := by
  simp [OnlyUses]

theorem onlyUses_uses (symbol : String) : OnlyUses (uses symbol) := by
  simp [OnlyUses]

theorem OnlyUses.bind {first : Recorded α} {next : α → Recorded β} (head : first.OnlyUses)
    (tail : ∀ value, (next value).OnlyUses) : (first >>= next).OnlyUses := by
  obtain ⟨notes, outcome⟩ := first
  cases outcome with
  | error refusal => exact head
  | ok value =>
      intro note listed
      rcases List.mem_append.mp listed with early | late
      · exact head note early
      · exact tail value note late

theorem onlyUses_each {construct : α → Recorded β} (all : ∀ item, (construct item).OnlyUses)
    (items : List α) : (each construct items).OnlyUses := by
  induction items with
  | nil => exact onlyUses_quiet _
  | cons item rest ih => exact (all item).bind fun _ => ih.bind fun _ => onlyUses_quiet _

end Recorded

open Recorded

theorem onlyUses_resolveType (type : TypeTree) : (resolveType type).OnlyUses := by
  induction type with
  | leaf value =>
      cases value with
      | named name =>
          rw [resolveType]
          split
          · exact (onlyUses_uses name).bind fun _ => onlyUses_quiet _
          · exact onlyUses_quiet _
      | foreign kind => exact onlyUses_quiet _
  | list item ih => exact (onlyUses_uses _).bind fun _ => ih.bind fun _ => onlyUses_quiet _
  | nonNull item ih => exact (onlyUses_uses _).bind fun _ => ih.bind fun _ => onlyUses_quiet _

theorem onlyUses_declareType (type : TypeTree) (keywords container : String) :
    (declareType type keywords container).OnlyUses := by
  have inner := onlyUses_resolveType
  cases type with
  | leaf value =>
      cases value with
      | named name =>
          rw [declareType]
          split
          · exact (onlyUses_uses name).bind fun _ => onlyUses_quiet _
          · exact (onlyUses_uses container).bind fun _ => onlyUses_quiet _
      | foreign kind => exact onlyUses_quiet _
  | list item =>
      exact (onlyUses_uses _).bind fun _ => (inner item).bind fun _ => onlyUses_quiet _
  | nonNull item =>
      exact (onlyUses_uses _).bind fun _ => (inner item).bind fun _ => onlyUses_quiet _

theorem onlyUses_argumentKeywords (settings : Settings) (field : String) (reserved : List String)
    (arguments : List InputValue) (mapped : Entries String) :
    (argumentKeywords settings field reserved arguments mapped).OnlyUses := by
  induction arguments generalizing mapped with
  | nil => exact onlyUses_quiet _
  | cons argument rest ih =>
      refine (onlyUses_quiet (checkArgument settings field argument)).bind fun _ => ?_
      split
      · refine OnlyUses.bind ?_ fun _ => ih _
        exact (onlyUses_uses _).bind fun _ =>
          (onlyUses_resolveType _).bind fun _ => onlyUses_quiet _
      · exact (onlyUses_declareType _ _ _).bind fun _ => (ih _).bind fun _ => onlyUses_quiet _

theorem Member.onlyUses_keywords (settings : Settings) (member : Member) :
    (member.keywords settings).OnlyUses :=
  (onlyUses_argumentKeywords _ _ _ _ _).bind fun _ => onlyUses_quiet _

theorem Member.onlyUses_toAttribute (settings : Settings) (member : Member) :
    (member.toAttribute settings).OnlyUses :=
  (member.onlyUses_keywords settings).bind fun _ =>
    (onlyUses_declareType _ _ _).bind fun _ => onlyUses_quiet _

/-- Only definitions note root types. -/
theorem Step.onlyUses_perform (settings : Settings) (step : Step) :
    (step.perform settings).OnlyUses ∨ ∃ document, step = .declare document := by
  cases step with
  | addSymbol symbol => exact .inl ((onlyUses_uses symbol).bind fun _ => onlyUses_quiet _)
  | configure setting => exact .inl (onlyUses_quiet _)
  | resolveType type => exact .inl ((onlyUses_resolveType type).bind fun _ => onlyUses_quiet _)
  | declareType type extra container =>
      exact .inl ((onlyUses_declareType type extra container).bind fun _ => onlyUses_quiet _)
  | namedType type =>
      exact .inl ((onlyUses_quiet (Build.namedType type)).bind fun _ => onlyUses_quiet _)
  | keywords source =>
      exact .inl ((source.onlyUses_keywords settings).bind fun _ => onlyUses_quiet _)
  | argument source =>
      exact .inl ((onlyUses_declareType _ _ _).bind fun _ => onlyUses_quiet _)
  | member source =>
      exact .inl ((source.onlyUses_toAttribute settings).bind fun _ => onlyUses_quiet _)
  | members sources =>
      exact .inl ((onlyUses_each (Member.onlyUses_toAttribute settings) sources).bind fun _ =>
        onlyUses_quiet _)
  | declare document => exact .inr ⟨document, rfl⟩

end Symbols

section Runs

namespace Context

theorem recordAll_wiring {notes : List Note} (context : Context)
    (symbols : ∀ note ∈ notes, ∃ symbol, note = .uses symbol) :
    (context.recordAll notes).wiring = context.wiring := by
  have root : ∀ operation, (context.recordAll notes).root operation = context.root operation := by
    intro operation
    rw [recordAll_root, filterMap_symbols symbols fun _ => rfl,
      filterMap_symbols symbols fun _ => rfl]
    simp
  have query : some (context.recordAll notes).query = some context.query := root .query
  simp only [wiring, Wiring.mk.injEq]
  exact ⟨Option.some.inj query, root .mutation, root .subscription⟩

theorem recordAll_root_isSome (context : Context) (notes : List Note) (operation : Operation)
    (known : (context.root operation).isSome = true) :
    ((context.recordAll notes).root operation).isSome = true := by
  rw [recordAll_root]
  simp [known]

end Context

namespace Session

/-- What a step does to a session, given its outcome and the session after it. -/
structure Keeps (before : Session) (step : Step) (outcome : Except Refusal Answer)
    (after : Session) : Prop where
  /-- The context is worked on in place, also by a step that is refused. -/
  inPlace : (outcome, after.context) = (InPlace.perform before.settings step).runOn before.context
  settings : after.settings = step.settings before.settings
  symbols : before.context.symbols <+: after.context.symbols
  distinct : after.context.symbols.Nodup
  roots : after.context.wiring ≠ before.context.wiring → ∃ document, step = .declare document
  mutation : before.context.mutation.isSome = true → after.context.mutation.isSome = true
  subscription : before.context.subscription.isSome = true →
    after.context.subscription.isSome = true
  /-- Worked in place on any other context, the step comes to the same outcome. -/
  anywhere : ∀ context, ((InPlace.perform before.settings step).runOn context).1 = outcome
  alone : (Session.step { settings := before.settings } step).1 = outcome

theorem keeps_step (session : Session) (distinct : session.context.symbols.Nodup) (step : Step) :
    session.Keeps step (session.step step).1 (session.step step).2 where
  inPlace := runIn_perform session.settings step session.context
  settings := rfl
  symbols := ⟨_, (Context.recordAll_symbols _ _).symm⟩
  distinct := Context.recordAll_symbols_nodup _ distinct
  roots := by
    intro changed
    rcases step.onlyUses_perform session.settings with symbols | declared
    · exact absurd (Context.recordAll_wiring session.context symbols) changed
    · exact declared
  mutation := session.context.recordAll_root_isSome _ .mutation
  subscription := session.context.recordAll_root_isSome _ .subscription
  anywhere context := by
    rw [← runIn_perform]
    rfl
  alone := rfl

/-- Along a session every step is answered, with the session that the steps before it have
left, and keeps what steps keep. -/
theorem run_keeps (session : Session) (distinct : session.context.symbols.Nodup)
    (steps : List Step) :
    (session.run steps).length = steps.length ∧
      ∀ (index : Nat) (step : Step), steps[index]? = some step →
        ∃ (before : Session) (outcome : Except Refusal Answer) (after : Session),
          (session :: (session.run steps).map Prod.snd)[index]? = some before ∧
            (session.run steps)[index]? = some (outcome, after) ∧
            before.Keeps step outcome after := by
  -- Distinctness of the symbols is what one step hands on to the next.
  induction steps generalizing session with
  | nil => simp [Session.run]
  | cons first rest ih =>
      have kept := session.keeps_step distinct first
      obtain ⟨answered, later⟩ := ih (session.step first).2 kept.distinct
      refine ⟨congrArg (· + 1) answered, ?_⟩
      intro index step listed
      cases index with
      | zero =>
          cases listed
          exact ⟨session, _, _, rfl, rfl, kept⟩
      | succ index => exact later index step listed

/-- Two of the steps are refused halfway: the first inside two wrappers, the third in its
second definition. -/
def interruptedSteps : List Step :=
  [.declareType (.nonNull (.list (.leaf (.foreign "IntValue")))) "" "Field",
    .configure (.scalarArgumentsOnly true),
    .declare [.schema none [(.mutation, named "Editing")],
      .type ⟨named "Query", none, .object []
        [⟨named "find", none, [⟨named "by", none, .leaf (named "Filter")⟩],
          .leaf (named "Int")⟩]⟩],
    .configure (.scalarArgumentsOnly false),
    .declare [.type ⟨named "Mutation", none, .object [] []⟩]]

theorem run_keeps_interruptedSteps :
    ((Session.run {} interruptedSteps).map fun (outcome, after) =>
        (outcome.toBool, after.context.symbols, after.context.mutation)) =
      [(false, ["NonNull", "List"], none), (true, ["NonNull", "List"], none),
        (false, ["NonNull", "List", "ObjectType"], some "Editing"),
        (true, ["NonNull", "List", "ObjectType"], some "Editing"),
        (true, ["NonNull", "List", "ObjectType"], some "Editing")] ∧
    ∀ (index : Nat) (step : Step), interruptedSteps[index]? = some step →
      ∃ (before : Session) (outcome : Except Refusal Answer) (after : Session),
        (({} : Session) :: (Session.run {} interruptedSteps).map Prod.snd)[index]? = some before ∧
          (Session.run {} interruptedSteps)[index]? = some (outcome, after) ∧
          before.Keeps step outcome after :=
  ⟨by decide +kernel, (run_keeps {} List.nodup_nil interruptedSteps).2⟩

end Session

end Runs

end SchemaClasses.Build
