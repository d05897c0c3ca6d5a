import SchemaClasses.Files.Load
import SchemaClasses.Proofs.Refusals

/-!
Schemas joined one after the other, as the files of a folder are. The class of a definition
does not depend on what stands before it, and the symbols that a later part shares with an
earlier one are imported at their first place.
-/

namespace SchemaClasses.Files

open Schema

theorem loadFiles_outcome (current other : String) (files : List SourceFile) :
    (loadFiles current files).outcome = (loadFiles other files).outcome := by
  cases files <;> rfl

/-- Files loaded together make one document of all their definitions. -/
theorem loadFiles_append {current other : String} {files more : List SourceFile}
    {first second : Document} (loaded : (loadFiles current files).outcome = .ok first)
    (alsoLoaded : (loadFiles other more).outcome = .ok second) :
    (loadFiles current (files ++ more)).outcome = .ok (first ++ second) := by
  induction files generalizing current first with
  | nil =>
      cases loaded
      rw [List.nil_append, loadFiles_outcome current other, alsoLoaded, List.nil_append]
  | cons file rest ih =>
      by_cases blank : Text.isBlankText file.text = true
      · simp only [List.cons_append, loadFiles, blank, if_true] at loaded ⊢
        exact ih loaded
      · simp only [List.cons_append, loadFiles, if_neg blank] at loaded ⊢
        cases read : Sdl.readDocument file.text with
        | error fault => simp [read] at loaded
        | ok definitions =>
            simp only [read] at loaded ⊢
            cases others : (loadFiles file.name rest).outcome with
            | error fault => simp [others, Except.map] at loaded
            | ok later =>
                simp only [others, Except.map, Except.ok.injEq] at loaded
                subst first
                simp [ih others, Except.map]

end SchemaClasses.Files

namespace SchemaClasses.Build

open Schema Naming Output Files

theorem admitted_append {settings : Settings} {first second : Document} :
    Admitted settings (first ++ second) ↔ Admitted settings first ∧ Admitted settings second := by
  simp only [Admitted, typeDefinitions_append, List.mem_append, or_imp, forall_and]

theorem moduleContext_eq (settings : Settings) (document : Document) :
    moduleContext settings document =
      (Context.recordAll {} (wiringNotes settings)).recordAll
        (document.flatMap (definitionNotes settings)) :=
  Context.recordAll_append _ _ _

theorem moduleContext_append (settings : Settings) (first second : Document) :
    moduleContext settings (first ++ second) =
      (moduleContext settings first).recordAll (second.flatMap (definitionNotes settings)) := by
  rw [moduleContext_eq, moduleContext_eq, List.flatMap_append, Context.recordAll_append]

/-- The symbol of the wiring comes with either part, and is there since the first. -/
theorem moduleContext_symbols_append (settings : Settings) (first second : Document) :
    (moduleContext settings (first ++ second)).symbols =
      (moduleContext settings first).symbols ++ (moduleContext settings second).symbols.filter
        (· ∉ (moduleContext settings first).symbols) := by
  let start := Context.recordAll {} (wiringNotes settings)
  have shared : ∀ symbol ∉ (moduleContext settings first).symbols, symbol ∉ start.symbols := by
    intro symbol absent known
    rw [moduleContext_eq, Context.recordAll_symbols] at absent
    exact absent (List.mem_append_left _ known)
  rw [moduleContext_append, Context.recordAll_symbols, moduleContext_eq settings second,
    start.recordAll_symbols, List.filter_append, List.filter_filter]
  have gone : start.symbols.filter (· ∉ (moduleContext settings first).symbols) = [] := by
    rw [List.filter_eq_nil_iff]
    intro symbol known
    simpa using fun absent => shared symbol absent known
  rw [gone, List.nil_append]
  congr 1
  apply List.filter_congr
  intro symbol _
  by_cases absent : symbol ∉ (moduleContext settings first).symbols
  · simp [absent, shared symbol absent]
  · simp [absent]

/-- Joined schemas are built part by part. The first refusal is that of the whole. -/
theorem buildModule_append (settings : Settings) (first second : Document) :
    (∀ refusal, buildModule settings (first ++ second) = .error refusal ↔
      buildModule settings first = .error refusal ∨
        (∃ built, buildModule settings first = .ok built) ∧
          buildModule settings second = .error refusal) ∧
    (∀ built more, buildModule settings first = .ok built →
      buildModule settings second = .ok more →
        ∃ whole, buildModule settings (first ++ second) = .ok whole ∧
          whole.classes = built.classes ++ more.classes ∧
          whole.imports = built.imports ++ more.imports.filter (· ∉ built.imports)) ∧
    ∀ (current other : String) (files more : List SourceFile),
      (loadFiles current files).outcome = .ok first →
        (loadFiles other more).outcome = .ok second →
          (loadFiles current (files ++ more)).outcome = .ok (first ++ second) := by
  refine ⟨?_, ?_, fun _ _ _ _ => loadFiles_append⟩
  · intro refusal
    have joined : (declareAll settings (first ++ second)).refusal? =
        (declareAll settings first).refusal?.or (declareAll settings second).refusal? := by
      simp only [declareAll, Recorded.refusal?_each, List.findSome?_append]
    rw [buildModule_error_iff, buildModule_error_iff, buildModule_error_iff,
      exists_buildModule_iff, joined, Option.or_eq_some_iff]
  · intro built more done alsoDone
    obtain ⟨admitted, rfl⟩ := buildModule_ok_iff.mp done
    obtain ⟨alsoAdmitted, rfl⟩ := buildModule_ok_iff.mp alsoDone
    refine ⟨_, buildModule_eq (admitted_append.mpr ⟨admitted, alsoAdmitted⟩), ?_,
      moduleContext_symbols_append settings first second⟩
    simp only [writtenModule, typeDefinitions_append, List.map_append]

def authorSchema : Document :=
  [.type ⟨named "Author", none, .object []
    [⟨named "born", none, [], .nonNull (.leaf (named "Int"))⟩]⟩]

/-- The argument is of no built-in type. -/
def bookSchema : Document :=
  [.type ⟨named "Book", none, .object []
    [⟨named "pages", none, [⟨named "size", none, .leaf (named "Size")⟩],
      .list (.leaf (named "Int"))⟩]⟩]

theorem append_authorSchema_bookSchema :
    (∃ whole, buildModule {} (authorSchema ++ bookSchema) = .ok whole ∧
      whole.classes.map (·.name) = ["Author", "Book"] ∧
      whole.imports = ["Schema", "ObjectType", "NonNull", "Int", "Argument", "List"]) ∧
    buildModule { scalarArgumentsOnly := true } (authorSchema ++ bookSchema) =
      .error (.unsupportedArgument "pages" "size" "Size") := by
  have made (document : Document) : buildModule {} document = .ok (writtenModule {} document) :=
    buildModule_eq fun _ _ member _ => member.admitted_of_open rfl
  constructor
  · obtain ⟨_, joined, _⟩ := buildModule_append {} authorSchema bookSchema
    obtain ⟨whole, done, classes, imports⟩ := joined _ _ (made _) (made _)
    refine ⟨whole, done, ?_, ?_⟩
    · rw [classes]
      decide +kernel
    · rw [imports]
      decide +kernel
  · obtain ⟨refused, _⟩ :=
      buildModule_append { scalarArgumentsOnly := true } authorSchema bookSchema
    refine (refused _).mpr (.inr ⟨exists_buildModule_iff.mpr ?_, buildModule_error_iff.mpr ?_⟩)
    · decide +kernel
    · decide +kernel

end SchemaClasses.Build
