import SchemaClasses.Proofs.RootTypes
import SchemaClasses.Proofs.UniqueReading

/-!
The wiring in the text of a module. No class needs its symbol, whatever the types of the schema
are called, so the symbol stands alone before all others and the rest of the text is the same
with and without the wiring. At the end the statement with the root types is added.
-/

namespace SchemaClasses.Build

open Schema Naming Output Check

section Modules

/-! Settings that differ in the wiring alone. Arguments are refused and classes are written
without a look at it. -/

variable (settings : Settings) (document : Document)

theorem schema_not_imported :
    "Schema" ∉ (writtenModule { settings with wiring := false } document).imports := by
  intro imported
  rcases mem_imports.mp imported with ⟨wired, _⟩ | ⟨definition, _, used⟩
  · cases wired
  · exact schema_not_mem_classSymbols _ definition used

/-- The symbol of the wiring is recorded first, and no other is held back by it. -/
theorem imports_wired :
    (writtenModule { settings with wiring := true } document).imports =
      "Schema" :: (writtenModule { settings with wiring := false } document).imports := by
  have others : ∀ symbol ∈ (writtenModule { settings with wiring := false } document).imports,
      decide (symbol ∉ ["Schema"]) = true := by
    intro symbol imported
    have different : symbol ≠ "Schema" :=
      ne_of_mem_of_not_mem imported (schema_not_imported settings document)
    simpa using different
  calc (writtenModule { settings with wiring := true } document).imports
      = (Context.recordAll { symbols := ["Schema"] }
          (document.flatMap (definitionNotes settings))).symbols := rfl
    _ = "Schema" :: (writtenModule { settings with wiring := false } document).imports.filter
          (· ∉ ["Schema"]) := Context.recordAll_symbols _ _
    _ = "Schema" :: (writtenModule { settings with wiring := false } document).imports := by
        rw [List.filter_eq_self.mpr others]

/-- The wiring changes nothing but the symbol before the imports and the closing statement. -/
theorem writtenModule_wired :
    writtenModule { settings with wiring := true } document =
      { writtenModule { settings with wiring := false } document with
        imports := "Schema" :: (writtenModule { settings with wiring := false } document).imports
        schema := some (rootTypes document) } := by
  have wired : ({ settings with wiring := true } : Settings).wiring = true := rfl
  rw [← imports_wired, ← writtenModule_schema wired document]
  rfl

end Modules

section Texts

/-- A root type as a keyword of the closing statement, if there is one. -/
def rootKeyword (keyword : String) (type : Option String) : String :=
  (type.map fun name => ", " ++ keyword ++ "=" ++ name).getD ""

theorem rootText_eq (keyword : String) {type : Option String}
    (spelled : ∀ name ∈ type, Spelled name) : rootText keyword type = rootKeyword keyword type := by
  cases type with
  | none => rfl
  | some name => simp [rootText, present_some (spelled name rfl).ne_empty, rootKeyword]

theorem wiring_render {roots : Wiring} (legible : LegibleWiring roots) :
    roots.render = "\nschema = Schema(query=" ++ roots.query ++
      rootKeyword "mutation" roots.mutation ++
      rootKeyword "subscription" roots.subscription ++ ")\n" := by
  unfold Wiring.render
  rw [rootText_eq "mutation" legible.mutation, rootText_eq "subscription" legible.subscription]

/-- What follows the symbols of a module without its closing statement. -/
def textAfterImport (document : ClassModule) : String :=
  ", ".intercalate document.imports ++ "\n\n" ++
    "\n".intercalate (document.classes.map ClassDeclaration.render)

theorem render_unwired {document : ClassModule} (filled : document.classes ≠ [])
    (unwired : document.schema = none) :
    document.render = "from " ++ document.framework ++ " import " ++ textAfterImport document := by
  simp [ClassModule.render, filled, unwired, importText, textAfterImport, String.append_assoc]

/-- One more symbol before the imports, and a statement at the end. -/
theorem render_wired {document : ClassModule} (filled : document.classes ≠ [])
    (imported : document.imports ≠ []) (symbol : String) (roots : Wiring) :
    ClassModule.render
        { document with imports := symbol :: document.imports, schema := some roots } =
      "from " ++ document.framework ++ (" import " ++ symbol ++ ", ") ++
        textAfterImport document ++ roots.render := by
  obtain ⟨first, others, shape⟩ := List.exists_cons_of_ne_nil imported
  simp [ClassModule.render, filled, importText, textAfterImport, shape, String.append_assoc,
    String.intercalate_cons_cons]

end Texts

section Wiring

/-- With and without wiring a document makes the same classes. The symbol of the wiring stands
before the other imports and is none of them, and the text differs by that symbol and by the
closing statement, which names the root types that are known. -/
theorem wiring_only_adds (settings : Settings) (document : Document) (built : ClassModule)
    (done : buildModule settings document = .ok built) (filled : built.classes ≠ []) :
    ∃ plain wired, buildModule { settings with wiring := false } document = .ok plain ∧
      buildModule { settings with wiring := true } document = .ok wired ∧
      wired.classes = plain.classes ∧ "Schema" ∉ plain.imports ∧
      wired.imports = "Schema" :: plain.imports ∧
      plain.schema = none ∧ wired.schema = some (rootTypes document) ∧
      ∃ rest, plain.render = "from " ++ settings.framework ++ " import " ++ rest ∧
        wired.render = "from " ++ settings.framework ++ " import Schema, " ++ rest ++
          "\nschema = Schema(query=" ++ (rootTypes document).query ++
          rootKeyword "mutation" (rootTypes document).mutation ++
          rootKeyword "subscription" (rootTypes document).subscription ++ ")\n" := by
  obtain ⟨admitted, rfl⟩ := buildModule_ok_iff.mp done
  let plain := writtenModule { settings with wiring := false } document
  let wired := writtenModule { settings with wiring := true } document
  have classes : plain.classes ≠ [] := filled
  have types : typeDefinitions document ≠ [] := by simpa [writtenModule] using filled
  have roots : wired.schema = some (rootTypes document) := writtenModule_schema rfl document
  have legible : LegibleWiring (rootTypes document) := (legible_module types).schema _ roots
  refine ⟨plain, wired, buildModule_eq admitted, buildModule_eq admitted, rfl,
    schema_not_imported settings document, imports_wired settings document, rfl, roots,
    textAfterImport plain, render_unwired classes rfl, ?_⟩
  have text := render_wired classes (imports_ne_nil types) "Schema" (rootTypes document)
  have opening : " import " ++ "Schema" ++ ", " = " import Schema, " := rfl
  rw [← writtenModule_wired, opening, wiring_render legible] at text
  simp only [String.append_assoc] at text ⊢
  exact text

/-- A type that has the name of the wiring's symbol, and a root that has the name of its
operation. -/
def namesakeSchema : Document :=
  [.type ⟨named "Schema", none, .object []
      [⟨named "parts", none, [], .list (.leaf (named "Schema"))⟩]⟩,
    .type ⟨named "Mutation", none, .object [] []⟩]

theorem wiring_namesakeSchema :
    ∃ plain wired, buildModule { wiring := false } namesakeSchema = .ok plain ∧
      buildModule {} namesakeSchema = .ok wired ∧
      plain.classes.map (·.name) = ["Schema", "Mutation"] ∧
      wired.classes = plain.classes ∧ "Schema" ∉ plain.imports ∧
      wired.imports = "Schema" :: plain.imports ∧
      ∃ rest, plain.render = "from graphene import " ++ rest ∧
        wired.render = "from graphene import Schema, " ++ rest ++
          "\nschema = Schema(query=Query, mutation=Mutation)\n" := by
  have made : buildModule {} namesakeSchema = .ok (writtenModule {} namesakeSchema) :=
    buildModule_eq fun _ _ member _ => member.admitted_of_open rfl
  have names : (writtenModule {} namesakeSchema).classes.map (·.name) = ["Schema", "Mutation"] :=
    rfl
  have roots : rootTypes namesakeSchema = ⟨"Query", some "Mutation", none⟩ := by decide +kernel
  obtain ⟨plain, wired, built, alsoBuilt, classes, fresh, imports, _, _, rest, text, alsoText⟩ :=
    wiring_only_adds {} namesakeSchema _ made (by decide)
  have same : wired = writtenModule {} namesakeSchema := Except.ok.inj (alsoBuilt.symm.trans made)
  rw [roots] at alsoText
  refine ⟨plain, wired, built, alsoBuilt, ?_, classes, fresh, imports, rest, text, ?_⟩
  · rw [← classes, same, names]
  · rw [alsoText]
    simp only [String.append_assoc]
    rfl

end Wiring

end SchemaClasses.Build
