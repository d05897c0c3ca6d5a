import SchemaClasses.Check.Compile
import SchemaClasses.Proofs.CompiledText
import SchemaClasses.Proofs.LineEnds

/-!
Whether a written module compiles. The compiler unifies line ends first. Of a written
module this changes docstrings only, into docstrings again, so that the module is refused
for nothing but the name of a class or of an attribute that cannot be assigned.
-/

namespace SchemaClasses.Check

open Layout Machine Naming Output Schema Text

section Quiet

/-- Without carriage returns and null characters. -/
def Quiet (text : List Char) : Prop :=
  '\r' ∉ text ∧ '\x00' ∉ text

@[simp] theorem quiet_nil : Quiet [] := by simp [Quiet]

@[simp] theorem quiet_cons (c : Char) (rest : List Char) :
    Quiet (c :: rest) ↔ (c ≠ '\r' ∧ c ≠ '\x00') ∧ Quiet rest := by
  simp only [Quiet, List.mem_cons, not_or, ne_eq, eq_comm (a := c)]
  constructor
  · rintro ⟨⟨a, b⟩, c, d⟩
    exact ⟨⟨a, c⟩, b, d⟩
  · rintro ⟨⟨a, c⟩, b, d⟩
    exact ⟨⟨a, b⟩, c, d⟩

@[simp] theorem quiet_append (first second : List Char) :
    Quiet (first ++ second) ↔ Quiet first ∧ Quiet second := by
  simp only [Quiet, List.mem_append, not_or]
  constructor
  · rintro ⟨⟨a, b⟩, c, d⟩
    exact ⟨⟨a, c⟩, b, d⟩
  · rintro ⟨⟨a, c⟩, b, d⟩
    exact ⟨⟨a, b⟩, c, d⟩

theorem quiet_intercalate {separator : List Char} (quiet : Quiet separator)
    (pieces : List (List Char)) (each : ∀ piece ∈ pieces, Quiet piece) :
    Quiet (separator.intercalate pieces) := by
  constructor
  · intro member
    rcases mem_intercalate member with between | ⟨piece, listed, inside⟩
    · exact quiet.1 between
    · exact (each piece listed).1 inside
  · intro member
    rcases mem_intercalate member with between | ⟨piece, listed, inside⟩
    · exact quiet.2 between
    · exact (each piece listed).2 inside

theorem quiet_flatMap {α : Type} (items : List α) (text : α → List Char)
    (each : ∀ item ∈ items, Quiet (text item)) : Quiet (items.flatMap text) := by
  constructor
  · intro member
    obtain ⟨item, listed, found⟩ := List.mem_flatMap.mp member
    exact (each item listed).1 found
  · intro member
    obtain ⟨item, listed, found⟩ := List.mem_flatMap.mp member
    exact (each item listed).2 found

theorem quiet_usable {name : String} (usable : Usable name) : Quiet name.toList := by
  have parts := namePart_of_spellsName usable.1
  constructor
  · intro member
    exact absurd (parts _ member) (by decide)
  · intro member
    exact absurd (parts _ member) (by decide)

theorem quiet_joined (names : List String) (usable : ∀ name ∈ names, Usable name) :
    Quiet ([',', ' '].intercalate (names.map String.toList)) := by
  have separator : Quiet [',', ' '] := by simp
  apply quiet_intercalate separator
  intro piece member
  obtain ⟨known, listed, rfl⟩ := List.mem_map.mp member
  exact quiet_usable (usable known listed)

theorem quiet_tuple (names : List String) (usable : ∀ name ∈ names, Usable name) :
    Quiet (Literal.tuple names).toList := by
  match names with
  | [] => simp [Literal.tuple]
  | [name] => simp [Literal.tuple, quiet_usable (usable name (by simp))]
  | name :: second :: others =>
      simpa [Literal.tuple] using quiet_joined (name :: second :: others) usable

theorem quiet_wiring {wiring : Wiring} (wired : Wired wiring) : Quiet wiring.render.toList := by
  have usable := rootKeywords_usable wired
  have separator : Quiet [',', ' '] := by simp
  have inside := quiet_intercalate separator
    ((rootKeywords wiring).map fun root => root.1.toList ++ '=' :: root.2.toList) (by
      intro piece member
      obtain ⟨root, listed, rfl⟩ := List.mem_map.mp member
      simp [quiet_usable (usable root listed).1, quiet_usable (usable root listed).2])
  simp [wiring_text, String.toList_intercalate, Function.comp_def, inside]

theorem quiet_import {framework : String} {symbols : List String} (usable : Usable framework)
    (each : ∀ symbol ∈ symbols, Usable symbol) : Quiet (importText framework symbols).toList := by
  simp [importText, quiet_usable usable, quiet_joined symbols each]

theorem quiet_metaText {entries : Entries (List String)} (attributes : List Attribute)
    (written : ∀ entry ∈ entries, Usable entry.1 ∧ entry.1 ≠ "__debug__" ∧ entry.2 ≠ [] ∧
      ∀ name ∈ entry.2, Usable name) :
    Quiet (metaText entries attributes).toList := by
  have lines : Quiet (entries.flatMap fun entry => (metaLine entry).toList) := by
    apply quiet_flatMap
    intro entry member
    obtain ⟨usable, _, _, listed⟩ := written entry member
    simp [metaLine, quiet_usable usable, quiet_tuple entry.2 listed]
  unfold metaText
  by_cases plain : entries.isEmpty = true
  · simp [plain]
  · by_cases bare : attributes.isEmpty = true
    · simpa [plain, bare, String.toList_join, List.flatMap_map] using lines
    · simpa [plain, bare, String.toList_join, List.flatMap_map] using lines

theorem quiet_bodyText {declaration : ClassDeclaration} (writable : Writable declaration)
    (values : ∀ assignment ∈ declaration.attributes, Quiet assignment.value.toList) :
    Quiet (bodyText declaration) := by
  have assignments : Quiet
      (declaration.attributes.flatMap fun assignment => assignment.render.toList) := by
    apply quiet_flatMap
    intro assignment member
    simp [Attribute.render, quiet_usable (writable.attributes assignment member).1,
      values assignment member]
  have entries := quiet_metaText declaration.attributes writable.entries
  have empty : Quiet (if declaration.isEmpty then "  pass\n" else "").toList := by
    split <;> simp
  simp only [bodyText, quiet_append]
  exact ⟨⟨entries, by simpa [String.toList_join, List.flatMap_map] using assignments⟩, empty⟩

end Quiet

section LineEnds

/-- The same class with the line ends of its description unified. -/
def unified (declaration : ClassDeclaration) : ClassDeclaration :=
  { declaration with
    description := declaration.description.map fun text =>
      String.ofList (unifyNewlines text.toList) }

theorem docstring_unify (text : String) :
    unifyNewlines (Literal.docstring text).toList =
      (Literal.docstring (String.ofList (unifyNewlines text.toList))).toList := by
  simp [Literal.docstring, padQuote_unify, escapeDocstring_unify]

theorem present_some {text : String} (filled : text ≠ "") : present (some text) = some text := by
  simp [present, Option.filter_some, filled]

theorem docstringText_unify (description : Option String) (rest : List Char) :
    unifyNewlines ((docstringText description).toList ++ rest) =
      (docstringText (description.map fun text =>
        String.ofList (unifyNewlines text.toList))).toList ++ unifyNewlines rest := by
  cases description with
  | none => rfl
  | some text =>
      by_cases empty : text = ""
      · subst empty
        rfl
      · -- Unified or not, a description is there or it is not.
        have filled : String.ofList (unifyNewlines text.toList) ≠ "" := by
          intro same
          apply empty
          have none : unifyNewlines text.toList = [] := by simpa using congrArg String.toList same
          simpa using unifyNewlines_eq_nil.mp none
        have shape : (docstringText (some text)).toList ++ rest =
            [' ', ' ', '\x27', '\x27', '\x27'] ++ ((Literal.docstring text).toList ++
              '\x27' :: (['\x27', '\x27', '\n'] ++ rest)) := by
          simp [docstringText, present_some empty]
        have tail : unifyNewlines ('\x27' :: (['\x27', '\x27', '\n'] ++ rest)) =
            '\x27' :: '\x27' :: '\x27' :: '\n' :: unifyNewlines rest := by
          simp [unifyNewlines_other]
        rw [shape, unifyNewlines_append (by decide), unifyNewlines_parted _ (by decide), tail,
          docstring_unify]
        simp [docstringText, present_some filled]

theorem render_shape (declaration : ClassDeclaration) :
    declaration.render.toList =
      ("class " ++ declaration.name ++ "(" ++ declaration.base ++ "):\n").toList ++
        ((docstringText declaration.description).toList ++ bodyText declaration) := by
  simp [ClassDeclaration.render, bodyText]

theorem render_unify {declaration : ClassDeclaration} (writable : Writable declaration)
    (values : ∀ assignment ∈ declaration.attributes, Quiet assignment.value.toList)
    (rest : List Char) :
    unifyNewlines (declaration.render.toList ++ rest) =
      (unified declaration).render.toList ++ unifyNewlines rest := by
  have head : Quiet ("class " ++ declaration.name ++ "(" ++ declaration.base ++ "):\n").toList := by
    simp [quiet_usable writable.name, quiet_usable writable.base]
  have body := quiet_bodyText writable values
  rw [render_shape declaration, render_shape (unified declaration), List.append_assoc,
    List.append_assoc, unifyNewlines_append head.1, docstringText_unify,
    unifyNewlines_append body.1]
  simp [unified, bodyText, ClassDeclaration.isEmpty]

theorem classes_unify {classes : List ClassDeclaration}
    (writable : ∀ declaration ∈ classes, Writable declaration)
    (values : ∀ declaration ∈ classes, ∀ assignment ∈ declaration.attributes,
      Quiet assignment.value.toList) (rest : List Char) :
    unifyNewlines (("\n".intercalate (classes.map ClassDeclaration.render)).toList ++ rest) =
      ("\n".intercalate ((classes.map unified).map ClassDeclaration.render)).toList ++
        unifyNewlines rest := by
  induction classes with
  | nil => rfl
  | cons declaration others ih =>
      have first := render_unify (writable declaration (by simp)) (values declaration (by simp))
      by_cases last : others = []
      · subst last
        simpa using first rest
      · have later := ih (fun other member => writable other (by simp [member]))
          (fun other member => values other (by simp [member]))
        have notNil : others.map ClassDeclaration.render ≠ [] := by simpa using last
        have unifiedNotNil : (others.map unified).map ClassDeclaration.render ≠ [] := by
          simpa using last
        rw [List.map_cons, List.map_cons, List.map_cons, String.intercalate_cons_of_ne_nil notNil,
          String.intercalate_cons_of_ne_nil unifiedNotNil]
        simp only [String.toList_append, List.append_assoc]
        rw [first, unifyNewlines_append (by decide), later]

end LineEnds

section NullCharacters

def NoNull (text : String) : Prop :=
  '\x00' ∉ text.toList

instance (text : String) : Decidable (NoNull text) :=
  inferInstanceAs (Decidable ('\x00' ∉ text.toList))

@[simp] theorem noNull_append (first second : String) :
    NoNull (first ++ second) ↔ NoNull first ∧ NoNull second := by
  simp [NoNull]

theorem noNull_join (texts : List String) :
    NoNull (String.join texts) ↔ ∀ text ∈ texts, NoNull text := by
  simp [NoNull, String.toList_join]

theorem noNull_intercalate {separator : String} (clear : NoNull separator)
    (texts : List String) :
    NoNull (separator.intercalate texts) ↔ ∀ text ∈ texts, NoNull text := by
  induction texts with
  | nil => simp [NoNull]
  | cons text rest ih =>
      by_cases last : rest = []
      · simp [last]
      · rw [String.intercalate_cons_of_ne_nil last]
        simp [ih, clear]

@[simp] theorem noNull_quoted (text : String) : NoNull (Literal.quoted text) ↔ NoNull text := by
  have escaped : ∀ c : Char, '\x00' ∈ Literal.escapeChar c ↔ c = '\x00' := by
    intro c
    unfold Literal.escapeChar
    grind
  simp [NoNull, Literal.quoted, escaped]

theorem null_mem_escapeDocstring (text : List Char) :
    '\x00' ∈ Literal.escapeDocstring text ↔ '\x00' ∈ text := by
  fun_induction Literal.escapeDocstring text with
  | case1 => rfl
  | case2 rest ih => simp [ih]
  | case3 rest ih => simp [ih]
  | case4 first rest _ _ ih => simp [ih]

@[simp] theorem noNull_docstring (text : String) :
    NoNull (Literal.docstring text) ↔ NoNull text := by
  unfold NoNull Literal.docstring Literal.padQuote
  split <;> simp [null_mem_escapeDocstring]

theorem noNull_docstringText (description : Option String) :
    NoNull (docstringText description) ↔ ∀ text ∈ description, NoNull text := by
  have opener : NoNull "  \x27\x27\x27" := by decide
  have closer : NoNull "\x27\x27\x27\n" := by decide
  cases description with
  | none => simp [docstringText, present, NoNull]
  | some text =>
      by_cases empty : text = ""
      · subst empty
        exact iff_of_true (by decide) (by simp [NoNull])
      · simp [docstringText, present_some empty, opener, closer]

/-- No value holds a carriage return, and neither values nor descriptions hold a null
character. -/
structure Clear (document : ClassModule) : Prop where
  values : ∀ declaration ∈ document.classes, ∀ assignment ∈ declaration.attributes,
    Quiet assignment.value.toList
  descriptions : ∀ declaration ∈ document.classes, ∀ text ∈ declaration.description,
    '\x00' ∉ text.toList

theorem declaration_clear {declaration : ClassDeclaration} (writable : Writable declaration)
    (values : ∀ assignment ∈ declaration.attributes, Quiet assignment.value.toList)
    (clear : ∀ text ∈ declaration.description, '\x00' ∉ text.toList) :
    '\x00' ∉ declaration.render.toList := by
  have name := (quiet_usable writable.name).2
  have base := (quiet_usable writable.base).2
  have docstring := (noNull_docstringText declaration.description).mpr clear
  have body := (quiet_bodyText writable values).2
  rw [render_shape]
  simp only [List.mem_append, not_or]
  exact ⟨by simp [name, base], docstring, body⟩

theorem module_clear {document : ClassModule} (writable : WritableModule document)
    (clear : Clear document) : '\x00' ∉ document.render.toList := by
  have notEmpty : document.classes.isEmpty = false := by simpa using writable.filled
  have imports := (quiet_import writable.framework fun symbol member =>
    (writable.imports.2 symbol member).1).2
  have classes :
      '\x00' ∉ ("\n".intercalate (document.classes.map ClassDeclaration.render)).toList := by
    rw [String.toList_intercalate]
    intro member
    rcases mem_intercalate member with feed | ⟨piece, listed, inside⟩
    · exact absurd feed (by decide)
    · simp only [List.map_map, List.mem_map] at listed
      obtain ⟨declaration, known, rfl⟩ := listed
      exact declaration_clear (writable.classes declaration known) (clear.values declaration known)
        (clear.descriptions declaration known) inside
  have wiring : '\x00' ∉ ((document.schema.map Wiring.render).getD "").toList := by
    cases given : document.schema with
    | none => simp
    | some wiring => exact (quiet_wiring (writable.schema wiring given)).2
  simp only [ClassModule.render, notEmpty, Bool.false_eq_true, if_false, String.toList_append,
    List.mem_append, not_or]
  exact ⟨⟨imports, classes⟩, wiring⟩

end NullCharacters

section Result

theorem render_unified {document : ClassModule} (writable : WritableModule document)
    (clear : Clear document) :
    unifyNewlines document.render.toList =
      ({ document with classes := document.classes.map unified } : ClassModule).render.toList := by
  have notEmpty : document.classes.isEmpty = false := by simpa using writable.filled
  have imports := quiet_import writable.framework fun symbol member =>
    (writable.imports.2 symbol member).1
  have wiring : Quiet ((document.schema.map Wiring.render).getD "").toList := by
    cases given : document.schema with
    | none => simp
    | some wiring => exact quiet_wiring (writable.schema wiring given)
  have ending := unifyNewlines_append wiring.1 []
  rw [List.append_nil] at ending
  simp only [ClassModule.render, notEmpty, List.isEmpty_map, Bool.false_eq_true, if_false,
    String.toList_append, List.append_assoc]
  rw [unifyNewlines_append imports.1, classes_unify writable.classes clear.values, ending]
  simp [unifyNewlines]

theorem unified_writable {document : ClassModule} (writable : WritableModule document) :
    WritableModule { document with classes := document.classes.map unified } where
  framework := writable.framework
  imports := writable.imports
  filled := by simpa using writable.filled
  classes := by
    intro declaration member
    obtain ⟨original, known, rfl⟩ := List.mem_map.mp member
    obtain ⟨name, base, entries, attributes⟩ := writable.classes original known
    exact ⟨name, base, entries, attributes⟩
  schema := writable.schema

/-- A text that leads to the top level compiles exactly if its names can be bound. -/
theorem problem_none_iff {text : String} {inner : List Nat} {reached : Machine → Prop}
    {sound : Prop} (clear : '\x00' ∉ text.toList)
    (led : Leads [] (Standing [] True) (unifyNewlines text.toList) inner reached)
    (top : TopLevel inner reached sound) : problem? text = none ↔ sound := by
  have source : Leads [] (Standing [] True) (sourceText text.toList) inner reached := by
    by_cases ended : (unifyNewlines text.toList).getLast? = some '\n'
    · simpa [sourceText, ended] using led
    · simpa [sourceText, ended] using led.append (leads_blank inner reached)
  have start : Standing [] True {} := ⟨[], none, rfl, rfl, by simp, by simp⟩
  obtain ⟨below, tokens, next, laid, read, known⟩ := source 1 {} start
  obtain ⟨last, closed, classes, issue, rfl, _, _, exact⟩ := top.2 next known below
  -- At the end of the text the blocks that are still open are closed.
  have outlined : outline text =
      .ok ⟨tokens ++ onLine below (List.replicate inner.length .dedent), none⟩ := by
    have begun : Layout.readAll {} (sourceText text.toList) = .ok (atMargin below inner, tokens) :=
      laid
    simp [outline, begun, finish, atMargin, onLine, bind, Except.bind, pure, Except.pure]
  have all := (Machine.readAll_append read _).trans closed
  have flaw : problem? text = issue.map .flaw := by
    simp [problem?, clear, outlined, Outline.flaw?, all, between]
  rw [flaw, Option.map_eq_none_iff, exact]

/-- A written module is refused for nothing but a name that it binds. -/
theorem render_compiles_iff {document : ClassModule} (writable : WritableModule document)
    (clear : Clear document) :
    problem? document.render = none ↔ ∀ declaration ∈ document.classes, Assignable declaration := by
  obtain ⟨inner, reached, led, top⟩ := leads_module (unified_writable writable)
  rw [← render_unified writable clear] at led
  rw [problem_none_iff (module_clear writable clear) led top]
  simp [Assignable, unified]

end Result

end SchemaClasses.Check
