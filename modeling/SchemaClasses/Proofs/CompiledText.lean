import SchemaClasses.Output.Render
import SchemaClasses.Proofs.LineLayout
import SchemaClasses.Proofs.Statements

/-!
Compiling a written module. Texts are joined line by line: what is known of the reader
before a text and after it is stated together, so that the parts of a class and of a
module follow one another.
-/

namespace SchemaClasses.Check

open Layout Machine Naming Output Schema

section Rules

/-- From a line start in the blocks `indents` the text is read to a line start in the
blocks `inner`, and the statements in it are taken. -/
def Leads (indents : List Nat) (before : Machine → Prop) (text : List Char) (inner : List Nat)
    (reached : Machine → Prop) : Prop :=
  ∀ line machine, before machine → ∃ below tokens next,
    Layout.readAll (atMargin line indents) text = .ok (atMargin below inner, tokens) ∧
    machine.readAll tokens = .ok next ∧ reached next

theorem leads_nil (indents : List Nat) (before : Machine → Prop) :
    Leads indents before [] indents before := by
  intro line machine holds
  exact ⟨line, [], machine, rfl, rfl, holds⟩

theorem Leads.append {indents middle inner : List Nat} {before between reached : Machine → Prop}
    {first second : List Char} (head : Leads indents before first middle between)
    (tail : Leads middle between second inner reached) :
    Leads indents before (first ++ second) inner reached := by
  intro line machine holds
  obtain ⟨below, tokens, next, laid, read, known⟩ := head line machine holds
  obtain ⟨lower, more, last, laidNext, readNext, ended⟩ := tail below next known
  refine ⟨lower, tokens ++ more, last, ?_, ?_, ended⟩
  · rw [Layout.readAll_append laid, laidNext, after_ok]
  · rw [Machine.readAll_append read, readNext]

theorem Leads.weaken {indents inner : List Nat} {before reached weaker : Machine → Prop}
    {text : List Char} (led : Leads indents before text inner reached)
    (implies : ∀ machine, reached machine → weaker machine) :
    Leads indents before text inner weaker := by
  intro line machine holds
  obtain ⟨below, tokens, next, laid, read, known⟩ := led line machine holds
  exact ⟨below, tokens, next, laid, read, implies next known⟩

theorem leads_blank (indents : List Nat) (before : Machine → Prop) :
    Leads indents before ['\n'] indents before := by
  intro line machine holds
  exact ⟨line + 1, [], machine, readAll_blank line indents [], rfl, holds⟩

/-- Between statements, in classes of the given names. There is no issue yet if and only
if every name bound so far could be. -/
def Standing (names : List String) (sound : Prop) (machine : Machine) : Prop :=
  ∃ classes issue, machine = between classes issue ∧
    classes.map (fun head => head.name.name) = names ∧
    (∀ head ∈ classes, head.issue = none) ∧ (issue = none ↔ sound)

/-- After the line of a class statement, before its block. -/
def Opening (name : String) (names : List String) (sound : Prop) (machine : Machine) : Prop :=
  ∃ line classes issue, machine = opening ⟨⟨name, line⟩, none⟩ classes issue ∧
    classes.map (fun head => head.name.name) = names ∧
    (∀ head ∈ classes, head.issue = none) ∧ (issue = none ↔ sound)

theorem Standing.congr {names : List String} {sound other : Prop} {machine : Machine}
    (standing : Standing names sound machine) (same : sound ↔ other) :
    Standing names other machine := by
  obtain ⟨classes, issue, shape, known, clean, exact⟩ := standing
  exact ⟨classes, issue, shape, known, clean, exact.trans same⟩

/-- A line of code at the width goes on in the block of the given classes. -/
def Entry (indents : List Nat) (before : Machine → Prop) (width : Nat) (inner : List Nat)
    (names : List String) (sound : Prop) : Prop :=
  ∃ shift, Shifts indents width inner shift ∧ ∀ machine, before machine → ∀ line, ∃ next,
    machine.readAll (onLine line shift) = .ok next ∧ Standing names sound next

theorem entry_same {indents : List Nat} {width : Nat} (names : List String) (sound : Prop)
    (same : indents.head?.getD 0 = width) :
    Entry indents (Standing names sound) width indents names sound := by
  refine ⟨[], shifts_same same, ?_⟩
  intro machine standing line
  exact ⟨machine, rfl, standing⟩

theorem entry_block (indents : List Nat) (width : Nat) (name : String) (names : List String)
    (sound : Prop) (deeper : indents.head?.getD 0 < width) :
    Entry indents (Opening name names sound) width (width :: indents) (name :: names) sound := by
  refine ⟨[.indent], shifts_deeper deeper, ?_⟩
  rintro machine ⟨start, classes, issue, rfl, known, clean, exact⟩ line
  refine ⟨_, Machine.readAll_step (read_indent _ classes issue line) [], _, _, rfl, ?_, ?_, exact⟩
  · simp [known]
  · intro head member
    rcases List.mem_cons.mp member with rfl | outer
    · rfl
    · exact clean head outer

theorem issue_none_iff (first second : Issue) :
    (first <|> second) = none ↔ first = none ∧ second = none := by
  cases first <;> simp

/-- The end of a block binds the names of its classes. -/
theorem standing_dedents (names outer : List String) {sound : Prop} {machine : Machine}
    (line : Nat) (standing : Standing (names ++ outer) sound machine) :
    ∃ next, machine.readAll (onLine line (List.replicate names.length .dedent)) = .ok next ∧
      Standing outer (sound ∧ ∀ name ∈ names, name ≠ "__debug__") next := by
  induction names generalizing sound machine with
  | nil => exact ⟨machine, rfl, standing.congr (by simp)⟩
  | cons name names ih =>
      obtain ⟨classes, issue, rfl, known, clean, exact⟩ := standing
      obtain ⟨head, rest, rfl, rfl, others⟩ := List.map_eq_cons_iff.mp known
      have bound : head.allIssues = assignmentIssue [head.name] := by
        simp [ClassHead.allIssues, clean head (by simp)]
      have step := read_dedent head rest issue line
      -- With its block a class is complete, and the statement binds its name.
      have inner : Standing (names ++ outer) (sound ∧ head.name.name ≠ "__debug__")
          (between rest (issue <|> head.allIssues)) := by
        refine ⟨rest, _, rfl, others, fun other member => clean other (by simp [member]), ?_⟩
        rw [bound, ← exact, issue_none_iff, assignmentIssue_none_iff]
        simp
      obtain ⟨next, read, reached⟩ := ih inner
      refine ⟨next, ?_, reached.congr ?_⟩
      · rw [List.length_cons, List.replicate_succ, onLine_cons, Machine.readAll_step step, read]
      · simp [and_assoc]

end Rules

section Lines

/-! Lines of a module, each as it is written. -/

/-- A name that may stand anywhere in a module text. -/
def Usable (name : String) : Prop :=
  spellsName name.toList = true ∧ isKeyword name = false

instance (name : String) : Decidable (Usable name) :=
  inferInstanceAs (Decidable (_ ∧ _))

theorem lexes_usable {name : String} (usable : Usable name) :
    Lexes name.toList [.word name] 0 :=
  lexes_word rfl usable.1

/-- A text that is read as one operand. -/
def Expression (text : String) : Prop :=
  ∃ marks depth, Lexes text.toList marks depth ∧ depth ≤ maxBrackets ∧ Reads marks

theorem leads_line {indents inner : List Nat} {before reached : Machine → Prop} {width : Nat}
    {names : List String} {sound : Prop} {first : Char} {code : List Char} {marks : List Mark}
    {depth : Nat} (entry : Entry indents before width inner names sound)
    (lexed : Lexes (first :: code) marks depth) (shallow : depth ≤ maxBrackets)
    (start : isNameStart first = true)
    (taken : ∀ machine, Standing names sound machine → ∀ line, ∃ next,
      machine.readAll (onLine line (marks ++ [.newline])) = .ok next ∧ reached next) :
    Leads indents before (List.replicate width ' ' ++ first :: code ++ ['\n']) inner reached := by
  intro line machine holds
  obtain ⟨shift, shifts, entered⟩ := entry
  obtain ⟨inside, shifted, standing⟩ := entered machine holds line
  obtain ⟨next, read, ended⟩ := taken inside standing line
  refine ⟨line + 1, _, next, readAll_line shifts lexed shallow start line [], ?_, ended⟩
  rw [List.append_nil, List.append_assoc, onLine_append, Machine.readAll_append shifted, read]

/-- An assignment at the width, to a name that may or may not be assignable. -/
theorem leads_assignment {indents inner : List Nat} {before : Machine → Prop} {width : Nat}
    {names : List String} {sound : Prop} {name value : String}
    (entry : Entry indents before width inner names sound) (usable : Usable name)
    (written : Expression value) :
    Leads indents before
      (List.replicate width ' ' ++ name.toList ++ ' ' :: '=' :: ' ' :: value.toList ++ ['\n']) inner
      (Standing names (sound ∧ name ≠ "__debug__")) := by
  obtain ⟨marks, depth, lexed, shallow, reads⟩ := written
  have assigned : Lexes (' ' :: '=' :: ' ' :: value.toList) (.sign '=' :: marks) depth :=
    lexes_space (lexes_sign (by simp) (lexes_space lexed))
  have whole := ((lexes_usable usable).mono (Nat.zero_le depth)).append assigned (by decide)
  have taken : ∀ machine, Standing names sound machine → ∀ line, ∃ next,
      machine.readAll (onLine line ([.word name] ++ .sign '=' :: marks ++ [.newline])) = .ok next ∧
        Standing names (sound ∧ name ≠ "__debug__") next := by
    rintro machine ⟨classes, issue, rfl, known, clean, exact⟩ line
    refine ⟨_, read_assignment classes issue line usable.2 reads, classes, _, rfl, known, clean, ?_⟩
    rw [issue_none_iff, assignmentIssue_none_iff, exact]
    simp
  cases spelling : name.toList with
  | nil =>
      have spelled := usable.1
      simp [spelling, spellsName] at spelled
  | cons first others =>
      have start : isNameStart first = true := by
        have spelled := usable.1
        simp only [spelling, spellsName, Bool.and_eq_true] at spelled
        exact spelled.1
      rw [spelling] at whole
      simpa using leads_line entry whole shallow start taken

theorem leads_class {indents inner : List Nat} {before : Machine → Prop} {width : Nat}
    {names : List String} {sound : Prop} {name base : String}
    (entry : Entry indents before width inner names sound) (usable : Usable name)
    (baseUsable : Usable base) :
    Leads indents before
      (List.replicate width ' ' ++ ("class " ++ name ++ "(" ++ base ++ "):").toList ++ ['\n']) inner
      (Opening name names sound) := by
  have bases : Lexes ('(' :: (base.toList ++ [')'])) [.sign '(', .word base, .sign ')'] 1 :=
    lexes_enclosed '(' ')' (by simp) (lexes_usable baseUsable)
  have colon : Lexes [':'] [.sign ':'] 1 :=
    (lexes_sign (by simp) lexes_nil).mono (Nat.zero_le 1)
  have head := ((lexes_usable usable).mono (Nat.zero_le 1)).append
    (bases.append colon (by decide)) (by decide)
  have word : Lexes ['c', 'l', 'a', 's', 's'] [.word "class"] 1 :=
    (lexes_word (by decide) (by decide)).mono (Nat.zero_le 1)
  have whole := word.append (lexes_space head) (by decide)
  have taken : ∀ machine, Standing names sound machine → ∀ line, ∃ next,
      machine.readAll (onLine line (classMarks name base ++ [.newline])) = .ok next ∧
        Opening name names sound next := by
    rintro machine ⟨classes, issue, rfl, known, clean, exact⟩ line
    exact ⟨_, read_class classes issue line usable.2 baseUsable.2, line, classes, issue, rfl, known,
      clean, exact⟩
  simpa [classMarks] using leads_line entry whole (by decide) (by decide) taken

theorem leads_plain_class {indents inner : List Nat} {before : Machine → Prop} {width : Nat}
    {names : List String} {sound : Prop} (entry : Entry indents before width inner names sound) :
    Leads indents before (List.replicate width ' ' ++ "class Meta:".toList ++ ['\n']) inner
      (Opening "Meta" names sound) := by
  have colon : Lexes [':'] [.sign ':'] 0 := lexes_sign (by simp) lexes_nil
  have name : Lexes ['M', 'e', 't', 'a'] [.word "Meta"] 0 := lexes_word (by decide) (by decide)
  have word : Lexes ['c', 'l', 'a', 's', 's'] [.word "class"] 0 :=
    lexes_word (by decide) (by decide)
  have whole := word.append (lexes_space (name.append colon (by decide))) (by decide)
  have taken : ∀ machine, Standing names sound machine → ∀ line, ∃ next,
      machine.readAll (onLine line ([.word "class", .word "Meta", .sign ':'] ++ [.newline])) =
        .ok next ∧ Opening "Meta" names sound next := by
    rintro machine ⟨classes, issue, rfl, known, clean, exact⟩ line
    exact ⟨_, read_plain_class classes issue line (by decide), line, classes, issue, rfl, known,
      clean, exact⟩
  simpa using leads_line entry whole (by decide) (by decide) taken

theorem leads_pass {indents inner : List Nat} {before : Machine → Prop} {width : Nat}
    {names : List String} {sound : Prop} (entry : Entry indents before width inner names sound) :
    Leads indents before (List.replicate width ' ' ++ "pass".toList ++ ['\n']) inner
      (Standing names sound) := by
  have word : Lexes ['p', 'a', 's', 's'] [.word "pass"] 0 := lexes_word (by decide) (by decide)
  have taken : ∀ machine, Standing names sound machine → ∀ line, ∃ next,
      machine.readAll (onLine line ([.word "pass"] ++ [.newline])) = .ok next ∧
        Standing names sound next := by
    rintro machine ⟨classes, issue, rfl, known, clean, exact⟩ line
    exact ⟨_, read_pass classes issue line, classes, issue, rfl, known, clean, exact⟩
  simpa using leads_line entry word (by decide) (by decide) taken

theorem leads_docstring {indents inner : List Nat} {before : Machine → Prop} {width : Nat}
    {names : List String} {sound : Prop} (entry : Entry indents before width inner names sound)
    (text : String) :
    Leads indents before
      (List.replicate width ' ' ++
        ("\x27\x27\x27" ++ Literal.docstring text ++ "\x27\x27\x27").toList ++
        ['\n']) inner (Standing names sound) := by
  intro line machine holds
  obtain ⟨shift, shifts, entered⟩ := entry
  obtain ⟨inside, shifted, classes, issue, rfl, known, clean, exact⟩ := entered machine holds line
  obtain ⟨below, laid⟩ := readAll_docstring shifts text.toList line []
  refine ⟨below + 1,
    onLine line (shift ++ [.text (docstringBody text.toList)]) ++ [⟨.newline, below⟩],
    between classes issue, ?_, ?_, classes, issue, rfl, known, clean, exact⟩
  · simpa [docstring_toList, Layout.readAll] using laid
  · rw [onLine_append, List.append_assoc, Machine.readAll_append shifted]
    exact read_docstring classes issue _ line below

end Lines

section Classes

theorem expression_tuple {names : List String} (filled : names ≠ [])
    (usable : ∀ name ∈ names, Usable name) : Expression (Literal.tuple names) := by
  refine ⟨tupleMarks names, 1, ?_, by decide,
    reads_tuple names filled fun name member => (usable name member).2⟩
  match names with
  | [] => exact absurd rfl filled
  | [name] =>
      have comma : Lexes [',', ' '] [.sign ','] 0 := lexes_sign (by simp) (lexes_space lexes_nil)
      have inside := (lexes_usable (usable name (by simp))).append comma (by decide)
      have bracketed := lexes_enclosed '(' ')' (by simp) inside
      simpa [Literal.tuple, tupleMarks, joined] using bracketed
  | name :: second :: others =>
      let pieces := (name :: second :: others).map fun name => (name.toList, [Mark.word name])
      have each : ∀ piece ∈ pieces, Lexes piece.1 piece.2 0 := by
        intro piece member
        obtain ⟨known, listed, rfl⟩ := List.mem_map.mp member
        exact lexes_usable (usable known listed)
      have bracketed := lexes_enclosed '(' ')' (by simp)
        (lexes_joined pieces each)
      simpa [Literal.tuple, tupleMarks, joined, pieces, String.toList_intercalate,
        Function.comp_def] using bracketed

/-- A class declaration whose names and values can all be written. -/
structure Writable (declaration : ClassDeclaration) : Prop where
  name : Usable declaration.name
  base : Usable declaration.base
  entries : ∀ entry ∈ declaration.metaEntries, Usable entry.1 ∧ entry.1 ≠ "__debug__" ∧
    entry.2 ≠ [] ∧ ∀ name ∈ entry.2, Usable name
  attributes : ∀ assignment ∈ declaration.attributes,
    Usable assignment.name ∧ Expression assignment.value

/-- Every name that the class statement binds can be bound. -/
def Assignable (declaration : ClassDeclaration) : Prop :=
  declaration.name ≠ "__debug__" ∧
    ∀ assignment ∈ declaration.attributes, assignment.name ≠ "__debug__"

theorem leads_attributes {indents : List Nat} {before : Machine → Prop} {names : List String}
    {sound : Prop} (entry : Entry indents before 2 [2] names sound) (attributes : List Attribute)
    (filled : attributes ≠ [])
    (written : ∀ assignment ∈ attributes, Usable assignment.name ∧ Expression assignment.value) :
    Leads indents before (String.join (attributes.map Attribute.render)).toList [2]
      (Standing names (sound ∧ ∀ assignment ∈ attributes, assignment.name ≠ "__debug__")) := by
  induction attributes generalizing indents before sound with
  | nil => exact absurd rfl filled
  | cons assignment rest ih =>
      obtain ⟨usable, expression⟩ := written assignment (by simp)
      have first : Leads indents before assignment.render.toList [2]
          (Standing names (sound ∧ assignment.name ≠ "__debug__")) := by
        simpa [Attribute.render, List.replicate_succ] using
          leads_assignment entry usable expression
      by_cases last : rest = []
      · subst last
        simpa using first
      · have others := ih (entry_same names (sound ∧ assignment.name ≠ "__debug__") rfl) last
          (fun other member => written other (by simp [member]))
        have both := first.append others
        simpa [String.toList_join, and_assoc] using both

theorem leads_metaLines {indents : List Nat} {before : Machine → Prop} {names : List String}
    {sound : Prop} (entry : Entry indents before 4 [4, 2] names sound)
    (entries : Entries (List String)) (filled : entries ≠ [])
    (written : ∀ entry ∈ entries, Usable entry.1 ∧ entry.1 ≠ "__debug__" ∧ entry.2 ≠ [] ∧
      ∀ name ∈ entry.2, Usable name) :
    Leads indents before (String.join (entries.map metaLine)).toList [4, 2]
      (Standing names sound) := by
  induction entries generalizing indents before with
  | nil => exact absurd rfl filled
  | cons line rest ih =>
      obtain ⟨usable, assignable, some, listed⟩ := written line (by simp)
      have first : Leads indents before (metaLine line).toList [4, 2] (Standing names sound) := by
        have assigned := leads_assignment entry usable (expression_tuple some listed)
        have kept := assigned.weaken fun machine standing =>
          standing.congr (and_iff_left assignable)
        simpa [metaLine, List.replicate_succ] using kept
      by_cases last : rest = []
      · subst last
        simpa using first
      · have others := ih (entry_same names sound rfl) last
          (fun other member => written other (by simp [member]))
        simpa [String.toList_join] using first.append others

theorem leads_metaText {indents : List Nat} {before : Machine → Prop} {name : String}
    {sound : Prop} (entry : Entry indents before 2 [2] [name] sound)
    (entries : Entries (List String)) (attributes : List Attribute) (filled : entries ≠ [])
    (written : ∀ entry ∈ entries, Usable entry.1 ∧ entry.1 ≠ "__debug__" ∧ entry.2 ≠ [] ∧
      ∀ name ∈ entry.2, Usable name) :
    Leads indents before (metaText entries attributes).toList [4, 2]
      (Standing ["Meta", name] sound) := by
  have head : Leads indents before "  class Meta:\n".toList [2] (Opening "Meta" [name] sound) := by
    simpa [List.replicate_succ] using leads_plain_class entry
  have lines := leads_metaLines (entry_block [2] 4 "Meta" [name] sound (by decide)) entries filled
    written
  have notEmpty : entries.isEmpty = false := by simpa using filled
  have block := head.append lines
  by_cases bare : attributes.isEmpty = true
  · simpa [metaText, notEmpty, bare] using block
  · simpa [metaText, notEmpty, bare] using block.append (leads_blank [4, 2] _)

/-- At the end of a class every open block ends, and with it the names are bound. -/
def TopLevel (indents : List Nat) (before : Machine → Prop) (sound : Prop) : Prop :=
  Shifts indents 0 [] (List.replicate indents.length .dedent) ∧
    ∀ machine, before machine → ∀ line, ∃ next,
      machine.readAll (onLine line (List.replicate indents.length .dedent)) = .ok next ∧
        Standing [] sound next

theorem TopLevel.entry {indents : List Nat} {before : Machine → Prop} {sound : Prop}
    (top : TopLevel indents before sound) : Entry indents before 0 [] [] sound :=
  ⟨_, top.1, top.2⟩

theorem topLevel_start (sound : Prop) : TopLevel [] (Standing [] sound) sound := by
  refine ⟨shifts_same rfl, ?_⟩
  intro machine standing line
  exact ⟨machine, rfl, standing⟩

theorem topLevel_class (name : String) (sound : Prop) :
    TopLevel [2] (Standing [name] sound) (sound ∧ name ≠ "__debug__") := by
  refine ⟨shifts_back (by decide) rfl rfl rfl, ?_⟩
  intro machine standing line
  obtain ⟨next, read, reached⟩ := standing_dedents [name] [] line standing
  exact ⟨next, read, reached.congr (by simp)⟩

theorem topLevel_meta (name : String) (sound : Prop) :
    TopLevel [4, 2] (Standing ["Meta", name] sound) (sound ∧ name ≠ "__debug__") := by
  refine ⟨shifts_back (by decide) rfl rfl rfl, ?_⟩
  intro machine standing line
  obtain ⟨next, read, reached⟩ :=
    standing_dedents ["Meta", name] [] line standing
  exact ⟨next, read, reached.congr (by simp)⟩

theorem entry_after_meta (name : String) (sound : Prop) :
    Entry [4, 2] (Standing ["Meta", name] sound) 2 [2] [name] sound := by
  refine ⟨[.dedent], shifts_back (by decide) rfl rfl rfl, ?_⟩
  intro machine standing line
  obtain ⟨next, read, reached⟩ :=
    standing_dedents ["Meta"] [name] line standing
  exact ⟨next, read, reached.congr (by simp)⟩

/-- With or without a docstring the rest of the body can follow. -/
theorem leads_docstringText (name : String) (sound : Prop) (description : Option String) :
    ∃ inner reached,
      Leads [] (Opening name [] sound) (docstringText description).toList inner reached ∧
      Entry inner reached 2 [2] [name] sound := by
  have block := entry_block [] 2 name [] sound (by decide)
  unfold docstringText
  cases present description with
  | none => exact ⟨[], Opening name [] sound, leads_nil _ _, block⟩
  | some text =>
      refine ⟨[2], Standing [name] sound, ?_, entry_same [name] sound rfl⟩
      simpa [List.replicate_succ] using leads_docstring block text

/-- The meta entries, the attributes and the `pass` statement, as far as they are there. -/
def bodyText (declaration : ClassDeclaration) : List Char :=
  (metaText declaration.metaEntries declaration.attributes).toList ++
    (String.join (declaration.attributes.map Attribute.render)).toList ++
    (if declaration.isEmpty then "  pass\n" else "").toList

theorem leads_bodyText {indents : List Nat} {before : Machine → Prop} {sound : Prop}
    {declaration : ClassDeclaration} (writable : Writable declaration)
    (entry : Entry indents before 2 [2] [declaration.name] sound) :
    ∃ inner reached, Leads indents before (bodyText declaration) inner reached ∧
      TopLevel inner reached (sound ∧ Assignable declaration) := by
  obtain ⟨name, base, description, entries, attributes⟩ := declaration
  unfold Assignable
  by_cases bare : attributes = []
  · subst bare
    by_cases plain : entries = []
    · -- Nothing but a `pass` statement.
      subst plain
      refine ⟨[2], Standing [name] sound, ?_, ?_⟩
      · simpa [bodyText, metaText, ClassDeclaration.isEmpty, List.replicate_succ] using
          leads_pass entry
      · simpa using topLevel_class name sound
    · -- The body ends inside of the inner class.
      refine ⟨[4, 2], Standing ["Meta", name] sound, ?_, ?_⟩
      · simpa [bodyText, ClassDeclaration.isEmpty, plain] using
          leads_metaText entry entries [] plain writable.entries
      · simpa using topLevel_meta name sound
  · let bound := sound ∧ ∀ assignment ∈ attributes, assignment.name ≠ "__debug__"
    -- The attributes are bound before the class, but it is the same to the result.
    have top : TopLevel [2] (Standing [name] bound) (sound ∧ name ≠ "__debug__" ∧
        ∀ assignment ∈ attributes, assignment.name ≠ "__debug__") := by
      have swapped : (bound ∧ name ≠ "__debug__") = (sound ∧ name ≠ "__debug__" ∧
          ∀ assignment ∈ attributes, assignment.name ≠ "__debug__") := by
        apply propext
        constructor
        · rintro ⟨⟨first, rest⟩, named⟩
          exact ⟨first, named, rest⟩
        · rintro ⟨first, named, rest⟩
          exact ⟨⟨first, rest⟩, named⟩
      rw [← swapped]
      exact topLevel_class name bound
    refine ⟨[2], Standing [name] bound, ?_, top⟩
    by_cases plain : entries = []
    · subst plain
      have written := leads_attributes entry attributes bare writable.attributes
      simpa [bodyText, metaText, ClassDeclaration.isEmpty, bare, bound] using written
    · have block := leads_metaText entry entries attributes plain writable.entries
      have written := leads_attributes (entry_after_meta name sound) attributes bare
        writable.attributes
      simpa [bodyText, ClassDeclaration.isEmpty, bare, plain, bound] using block.append written

theorem leads_declaration {indents : List Nat} {before : Machine → Prop} {sound : Prop}
    {declaration : ClassDeclaration} (writable : Writable declaration)
    (top : TopLevel indents before sound) :
    ∃ inner reached, Leads indents before declaration.render.toList inner reached ∧
      TopLevel inner reached (sound ∧ Assignable declaration) := by
  have head := leads_class top.entry writable.name writable.base
  obtain ⟨middle, described, docstring, entry⟩ :=
    leads_docstringText declaration.name sound declaration.description
  obtain ⟨inner, reached, body, ended⟩ := leads_bodyText writable entry
  refine ⟨inner, reached, ?_, ended⟩
  simpa [ClassDeclaration.render, bodyText] using head.append (docstring.append body)

end Classes

section Modules

/-! A module: the import line, the classes with blank lines between them, and the wiring
statement. -/

theorem leads_import {framework : String} {symbols : List String} (usable : Usable framework)
    (filled : symbols ≠ []) (each : ∀ symbol ∈ symbols, Usable symbol ∧ symbol ≠ "__debug__") :
    Leads [] (Standing [] True) (importText framework symbols).toList [] (Standing [] True) := by
  let pieces := symbols.map fun symbol => (symbol.toList, [Mark.word symbol])
  have lexed : ∀ piece ∈ pieces, Lexes piece.1 piece.2 0 := by
    intro piece member
    obtain ⟨symbol, listed, rfl⟩ := List.mem_map.mp member
    exact lexes_usable (each symbol listed).1
  have names : Lexes ([',', ' '].intercalate (symbols.map String.toList))
      (joined (symbols.map fun symbol => [.word symbol])) 0 := by
    simpa [pieces, joined, Function.comp_def] using lexes_joined pieces lexed
  have word : Lexes ['i', 'm', 'p', 'o', 'r', 't'] [.word "import"] 0 :=
    lexes_word (by decide) (by decide)
  have start : Lexes ['f', 'r', 'o', 'm'] [.word "from"] 0 := lexes_word (by decide) (by decide)
  have imports := word.append (lexes_space names) (by decide)
  have source := (lexes_usable usable).append (lexes_space imports) (by decide)
  have whole := start.append (lexes_space source) (by decide)
  have taken : ∀ machine, Standing [] True machine → ∀ line, ∃ next,
      machine.readAll (onLine line (importMarks framework symbols ++ [.newline])) = .ok next ∧
        Standing [] True next := by
    rintro machine ⟨classes, issue, rfl, known, clean, exact⟩ line
    refine ⟨_, read_import classes issue line symbols usable.2 filled
      (fun symbol member => (each symbol member).1.2), classes, _, rfl, known, clean, ?_⟩
    rw [issue_none_iff, exact, assignmentIssue_none_iff]
    simpa using fun symbol member => (each symbol member).2
  have line := leads_line (topLevel_start True).entry whole (by decide) (by decide) taken
  have both := line.append (leads_blank [] (Standing [] True))
  simpa [importText, String.toList_intercalate] using both

theorem leads_classes {indents : List Nat} {before : Machine → Prop} {sound : Prop}
    (classes : List ClassDeclaration) (filled : classes ≠ [])
    (writable : ∀ declaration ∈ classes, Writable declaration)
    (top : TopLevel indents before sound) :
    ∃ inner reached,
      Leads indents before ("\n".intercalate (classes.map ClassDeclaration.render)).toList inner
        reached ∧
      TopLevel inner reached (sound ∧ ∀ declaration ∈ classes, Assignable declaration) := by
  -- Each class starts where the one before it ends, in blocks that depend on its body.
  induction classes generalizing indents before sound with
  | nil => exact absurd rfl filled
  | cons declaration rest ih =>
      obtain ⟨middle, between, first, ended⟩ :=
        leads_declaration (writable declaration (by simp)) top
      by_cases last : rest = []
      · subst last
        exact ⟨middle, between, by simpa using first, by simpa using ended⟩
      · obtain ⟨inner, reached, others, final⟩ := ih last
          (fun other member => writable other (by simp [member])) ended
        refine ⟨inner, reached, ?_, by simpa [and_assoc] using final⟩
        have parted := first.append ((leads_blank middle between).append others)
        rw [List.map_cons, String.intercalate_cons_of_ne_nil (by simpa using last)]
        simpa using parted

/-- The root types can all be written. -/
def Wired (wiring : Wiring) : Prop :=
  Usable wiring.query ∧ (∀ name ∈ wiring.mutation, Usable name) ∧
    ∀ name ∈ wiring.subscription, Usable name

def rootKeyword (keyword : String) (type : Option String) : List (String × String) :=
  (present type).toList.map fun name => (keyword, name)

def rootKeywords (wiring : Wiring) : List (String × String) :=
  ("query", wiring.query) :: rootKeyword "mutation" wiring.mutation ++
    rootKeyword "subscription" wiring.subscription

theorem wiring_text (wiring : Wiring) :
    wiring.render = "\nschema = Schema(" ++ ", ".intercalate
      ((rootKeywords wiring).map fun root => root.1 ++ "=" ++ root.2) ++ ")\n" := by
  unfold Wiring.render rootText rootKeywords rootKeyword
  cases present wiring.mutation <;> cases present wiring.subscription <;>
    simp [String.intercalate_cons_cons, String.append_assoc, ← String.toList_inj]

theorem rootKeywords_usable {wiring : Wiring} (wired : Wired wiring) :
    ∀ root ∈ rootKeywords wiring, Usable root.1 ∧ Usable root.2 := by
  obtain ⟨query, mutation, subscription⟩ := wired
  have names : ∀ name ∈ ["query", "mutation", "subscription"], Usable name := by decide
  intro root member
  simp only [rootKeywords, rootKeyword, present, List.cons_append, List.mem_cons, List.mem_append,
    List.mem_map, Option.mem_toList, Option.filter_eq_some_iff] at member
  rcases member with rfl | ⟨name, ⟨named, _⟩, rfl⟩ | ⟨name, ⟨named, _⟩, rfl⟩
  · exact ⟨names _ (by simp), query⟩
  · exact ⟨names _ (by simp), mutation name named⟩
  · exact ⟨names _ (by simp), subscription name named⟩

theorem rootKeywords_names (wiring : Wiring) :
    ((rootKeywords wiring).map Prod.fst).Sublist ["query", "mutation", "subscription"] := by
  have each : ∀ keyword type, ((rootKeyword keyword type).map Prod.fst).Sublist [keyword] := by
    intro keyword type
    unfold rootKeyword
    cases present type <;> simp
  have both := (each "mutation" wiring.mutation).append (each "subscription" wiring.subscription)
  rw [← List.map_append] at both
  exact both.cons_cons "query"

theorem expression_wiring {wiring : Wiring} (wired : Wired wiring) :
    Expression ("Schema(" ++ ", ".intercalate
      ((rootKeywords wiring).map fun root => root.1 ++ "=" ++ root.2) ++ ")") := by
  have usable := rootKeywords_usable wired
  have names := rootKeywords_names wiring
  let keywords := (rootKeywords wiring).map fun root => (root.1, [Mark.word root.2])
  let pieces := (rootKeywords wiring).map fun root =>
    (root.1.toList ++ '=' :: root.2.toList, keywordMarks (root.1, [.word root.2]))
  have each : ∀ piece ∈ pieces, Lexes piece.1 piece.2 0 := by
    intro piece member
    obtain ⟨root, listed, rfl⟩ := List.mem_map.mp member
    exact lexes_keyword (usable root listed).1.1 (lexes_usable (usable root listed).2)
  have spelled : spellsName "Schema".toList = true := by decide
  have lexed := lexes_call spelled pieces each
  have known : keywords.map Prod.fst = (rootKeywords wiring).map Prod.fst := by
    simp [keywords, Function.comp_def]
  have reads : Reads (callMarks "Schema" (Option.toList none ++ keywords.map keywordMarks)) := by
    apply reads_call none keywords (by decide)
    · intro marks member
      cases member
    · intro keyword member
      obtain ⟨root, listed, rfl⟩ := List.mem_map.mp member
      exact (usable root listed).1.2
    · intro keyword member
      obtain ⟨root, listed, rfl⟩ := List.mem_map.mp member
      exact reads_name (usable root listed).2.2
    · rw [known]
      exact names.nodup (by decide)
    · rw [known]
      intro member
      exact absurd (names.subset member) (by decide)
  refine ⟨_, 1, ?_, by decide, reads⟩
  simpa [pieces, keywords, String.toList_intercalate, Function.comp_def] using lexed

theorem leads_wiring {indents : List Nat} {before : Machine → Prop} {sound : Prop}
    {wiring : Wiring} (wired : Wired wiring) (top : TopLevel indents before sound) :
    Leads indents before wiring.render.toList [] (Standing [] sound) := by
  have usable : Usable "schema" := by decide
  have assigned := leads_assignment top.entry usable (expression_wiring wired)
  have kept := assigned.weaken fun machine standing => standing.congr (and_iff_left (by decide))
  rw [wiring_text]
  simpa using (leads_blank indents before).append kept

/-- A module whose parts can all be written. -/
structure WritableModule (document : ClassModule) : Prop where
  framework : Usable document.framework
  imports : document.imports ≠ [] ∧
    ∀ symbol ∈ document.imports, Usable symbol ∧ symbol ≠ "__debug__"
  filled : document.classes ≠ []
  classes : ∀ declaration ∈ document.classes, Writable declaration
  schema : ∀ wiring ∈ document.schema, Wired wiring

theorem leads_module {document : ClassModule} (writable : WritableModule document) :
    ∃ inner reached, Leads [] (Standing [] True) document.render.toList inner reached ∧
      TopLevel inner reached (∀ declaration ∈ document.classes, Assignable declaration) := by
  have head := leads_import writable.framework writable.imports.1 writable.imports.2
  obtain ⟨middle, between, classes, ended⟩ :=
    leads_classes document.classes writable.filled writable.classes (topLevel_start True)
  rw [true_and] at ended
  have both := head.append classes
  have notEmpty : document.classes.isEmpty = false := by simpa using writable.filled
  cases wiring : document.schema with
  | none =>
      exact ⟨middle, between, by simpa [ClassModule.render, notEmpty, wiring] using both, ended⟩
  | some wiring' =>
      refine ⟨[], _, ?_, topLevel_start _⟩
      have last := leads_wiring (writable.schema wiring' wiring) ended
      simpa [ClassModule.render, notEmpty, wiring] using both.append last

end Modules

end SchemaClasses.Check
