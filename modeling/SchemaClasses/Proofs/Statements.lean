import SchemaClasses.Check.Statement
import SchemaClasses.Proofs.TokenLayout

/-!
Statements of a written module. An expression made of names, texts, calls, tuples and
mappings is read as one operand and leaves everything but the phase as it was. From
this the statements of a module follow: each is taken as a whole, and what is left of it
is at most the issue of a name that cannot be assigned.
-/

namespace SchemaClasses.Check

open Naming

section Issues

theorem keywordIssue_none (keywords : List Occurrence)
    (distinct : (keywords.map Occurrence.name).Nodup)
    (assignable : "__debug__" ∉ keywords.map Occurrence.name) : keywordIssue keywords = none := by
  induction keywords with
  | nil => rfl
  | cons keyword rest ih =>
      rw [List.map_cons, List.nodup_cons] at distinct
      rw [List.map_cons, List.mem_cons, not_or] at assignable
      have named : keyword.name ≠ "__debug__" := Ne.symm assignable.1
      have once : rest.find? (fun other => decide (other.name = keyword.name)) = none := by
        rw [List.find?_eq_none]
        intro other member same
        exact distinct.1 (List.mem_map.mpr ⟨other, member, of_decide_eq_true same⟩)
      simp only [keywordIssue, named, if_false, once]
      exact ih distinct.2 assignable.2

theorem assignmentIssue_none_iff (targets : List Occurrence) :
    assignmentIssue targets = none ↔ ∀ target ∈ targets, target.name ≠ "__debug__" := by
  induction targets with
  | nil => simp [assignmentIssue]
  | cons target rest ih =>
      by_cases debug : target.name = "__debug__"
      · simp [assignmentIssue, debug]
      · simp [assignmentIssue, debug, ih]

@[simp] theorem addIssue_none (frame : Frame) : frame.addIssue none = frame := by
  cases frame <;> simp [Frame.addIssue]

end Issues

namespace Machine

theorem readAll_step {machine next : Machine} {token : Token}
    (step : machine.read token = .ok next) (rest : List Token) :
    machine.readAll (token :: rest) = next.readAll rest := by
  simp only [readAll, step]

theorem readAll_append {machine middle : Machine} {first : List Token}
    (begun : machine.readAll first = .ok middle) (second : List Token) :
    machine.readAll (first ++ second) = middle.readAll second := by
  induction first generalizing machine with
  | nil =>
      cases begun
      rfl
  | cons token rest ih =>
      cases step : machine.read token with
      | error flaw => simp [readAll, step] at begun
      | ok next =>
          rw [readAll_step step] at begun
          rw [List.cons_append, readAll_step step]
          exact ih begun

section Signs

/-! What each sign does after an operand. -/

variable (machine : Machine) (operand : Operand) (line : Nat)

@[simp] theorem readAfterOperand_open :
    machine.readAfterOperand operand ⟨.sign '(', line⟩ = machine.pushFrame (.call {}) := rfl

@[simp] theorem readAfterOperand_comma :
    machine.readAfterOperand operand ⟨.sign ',', line⟩ = machine.readComma ⟨.sign ',', line⟩ := rfl

@[simp] theorem readAfterOperand_equals :
    machine.readAfterOperand operand ⟨.sign '=', line⟩ =
      machine.readEquals operand ⟨.sign '=', line⟩ := rfl

@[simp] theorem readAfterOperand_colon :
    machine.readAfterOperand operand ⟨.sign ':', line⟩ = machine.readColon ⟨.sign ':', line⟩ := rfl

@[simp] theorem readAfterOperand_close :
    machine.readAfterOperand operand ⟨.sign ')', line⟩ =
      if machine.isClosable then machine.closeFrame ⟨.sign ')', line⟩
      else unspecified ⟨.sign ')', line⟩ := rfl

@[simp] theorem readAfterOperand_closeBrace :
    machine.readAfterOperand operand ⟨.sign '\x7d', line⟩ =
      if machine.isClosable then machine.closeFrame ⟨.sign '\x7d', line⟩
      else unspecified ⟨.sign '\x7d', line⟩ := rfl

end Signs

section Operands

/-- The marks are taken as one operand wherever an operand may stand. -/
def Reads (marks : List Mark) : Prop :=
  ∀ (machine : Machine) (closable : Bool) (line : Nat), machine.phase = .operand closable →
    ∃ operand, machine.readAll (onLine line marks) =
      .ok { machine with phase := .afterOperand operand }

theorem not_constant {name : String} (free : isKeyword name = false) : name ∉ constants := by
  have all : ∀ constant ∈ constants, isKeyword constant = true := by decide
  intro member
  rw [all name member] at free
  cases free

theorem read_name (machine : Machine) {closable : Bool} (line : Nat) {name : String}
    (phase : machine.phase = .operand closable) (free : isKeyword name = false) :
    machine.read ⟨.word name, line⟩ = .ok { machine with phase := .afterOperand (.name name) } := by
  simp [Machine.read, phase, readOperand, not_constant free, free, goTo]

theorem reads_name {name : String} (free : isKeyword name = false) : Reads [.word name] := by
  intro machine closable line phase
  exact ⟨.name name, readAll_step (read_name machine line phase free) []⟩

theorem reads_text (body : List Char) : Reads [.text body] := by
  intro machine closable line phase
  refine ⟨.text, readAll_step ?_ []⟩
  simp [Machine.read, phase, readOperand, goTo]

theorem reads_number : Reads [.number] := by
  intro machine closable line phase
  refine ⟨.compound, readAll_step ?_ []⟩
  simp [Machine.read, phase, readOperand, goTo]

/-- A bracket without issues is closed to an operand of the brackets around it. -/
@[simp] theorem closeOperand_none (phase : Phase) (frame : Frame) (outer : List Frame)
    (targets : List Occurrence) (valueIssue : Issue) (classes : List ClassHead) (issue : Issue) :
    closeOperand ⟨phase, frame :: outer, targets, valueIssue, classes, issue⟩ none =
      .ok ⟨.afterOperand .compound, outer, targets, valueIssue, classes, issue⟩ := by
  cases outer <;> simp [closeOperand]

end Operands

section Calls

/-! Inside the brackets of a call the keywords are gathered in its frame. -/

theorem read_keyword (machine : Machine) {closable : Bool} {arguments : Arguments}
    {outer : List Frame} (line : Nat) (keyword : String × List Mark)
    (phase : machine.phase = .operand closable)
    (frames : machine.frames = .call arguments :: outer) (fresh : arguments.keyed = false)
    (free : isKeyword keyword.1 = false) (value : Reads keyword.2) :
    ∃ operand, machine.readAll (onLine line (keywordMarks keyword)) =
      .ok { machine with
        frames := .call (Arguments.addKeyword arguments keyword.1 line) :: outer
        phase := .afterOperand operand } := by
  let keyed : Machine := { machine with
    frames := .call (Arguments.addKeyword arguments keyword.1 line) :: outer
    phase := .operand false }
  have equals : Machine.read { machine with phase := .afterOperand (.name keyword.1) }
      ⟨.sign '=', line⟩ = .ok keyed := by
    simp [Machine.read, readEquals, frames, fresh, setFrame, keyed]
  obtain ⟨operand, read⟩ := value keyed false line rfl
  refine ⟨operand, ?_⟩
  rw [keywordMarks, onLine_cons, onLine_cons, readAll_step (read_name machine line phase free),
    readAll_step equals, read]

theorem read_comma {machine : Machine} {operand : Operand} {arguments : Arguments}
    {outer : List Frame} (line : Nat) (phase : machine.phase = .afterOperand operand)
    (frames : machine.frames = .call arguments :: outer)
    (ordered : Arguments.inOrder arguments = true) :
    machine.read ⟨.sign ',', line⟩ = .ok { machine with
      frames := .call { arguments with keyed := false } :: outer
      phase := .operand true } := by
  simp [Machine.read, phase, readComma, frames, ordered, setFrame]

/-- What the frame of a call holds after more keywords. -/
def gathered (arguments : Arguments) (line : Nat) (keywords : List (String × List Mark)) :
    Arguments :=
  { arguments with
    keywords := arguments.keywords ++ keywords.map fun keyword => ⟨keyword.1, line⟩
    keyed := arguments.keyed || !keywords.isEmpty }

theorem read_keywords (machine : Machine) {operand : Operand} {arguments : Arguments}
    {outer : List Frame} (line : Nat) (keywords : List (String × List Mark))
    (phase : machine.phase = .afterOperand operand)
    (frames : machine.frames = .call arguments :: outer)
    (ordered : Arguments.inOrder arguments = true)
    (free : ∀ keyword ∈ keywords, isKeyword keyword.1 = false)
    (values : ∀ keyword ∈ keywords, Reads keyword.2) :
    ∃ last, machine.readAll
        (onLine line ((keywords.map keywordMarks).flatMap (.sign ',' :: ·))) =
      .ok { machine with
        frames := .call (gathered arguments line keywords) :: outer
        phase := .afterOperand last } := by
  induction keywords generalizing machine operand arguments with
  | nil =>
      refine ⟨operand, ?_⟩
      simp [readAll, gathered, ← frames, ← phase]
  | cons keyword rest ih =>
      let parted : Machine := { machine with
        frames := .call { arguments with keyed := false } :: outer
        phase := .operand true }
      obtain ⟨middle, first⟩ := read_keyword parted line keyword rfl rfl rfl
        (free keyword (by simp)) (values keyword (by simp))
      let next : Machine := { parted with
        frames := .call (Arguments.addKeyword { arguments with keyed := false } keyword.1 line) ::
          outer
        phase := .afterOperand middle }
      have keyed : Arguments.inOrder
          (Arguments.addKeyword { arguments with keyed := false } keyword.1 line) = true := rfl
      obtain ⟨last, others⟩ := ih next rfl rfl keyed
        (fun other member => free other (by simp [member]))
        (fun other member => values other (by simp [member]))
      refine ⟨last, ?_⟩
      rw [List.map_cons, List.flatMap_cons, onLine_append, onLine_cons, List.cons_append,
        readAll_step (read_comma line phase frames ordered), readAll_append first, others]
      simp [next, parted, gathered, Arguments.addKeyword]

theorem close_call (machine : Machine) {operand : Operand} {arguments : Arguments}
    {outer : List Frame} (line : Nat) (phase : machine.phase = .afterOperand operand)
    (frames : machine.frames = .call arguments :: outer)
    (ordered : Arguments.inOrder arguments = true) (clean : arguments.allIssues = none) :
    machine.read ⟨.sign ')', line⟩ = .ok { machine with
      frames := outer, phase := .afterOperand .compound } := by
  obtain ⟨_, _, targets, valueIssue, classes, issue⟩ := machine
  cases phase
  cases frames
  simp [Machine.read, isClosable, ordered, closeFrame, clean]

theorem gathered_ordered (arguments : Arguments) (line : Nat)
    (keywords : List (String × List Mark)) (ordered : Arguments.inOrder arguments = true) :
    Arguments.inOrder (gathered arguments line keywords) = true := by
  cases keywords with
  | nil => simpa [gathered, Arguments.inOrder] using ordered
  | cons keyword rest => simp [gathered, Arguments.inOrder]

theorem gathered_clean (line : Nat) (keywords : List (String × List Mark))
    (distinct : (keywords.map Prod.fst).Nodup)
    (assignable : "__debug__" ∉ keywords.map Prod.fst) :
    (gathered {} line keywords).allIssues = none := by
  have names : (keywords.map fun keyword => (⟨keyword.1, line⟩ : Occurrence)).map Occurrence.name =
      keywords.map Prod.fst := by simp
  have none := keywordIssue_none (keywords.map fun keyword => ⟨keyword.1, line⟩)
    (by rw [names]; exact distinct) (by rw [names]; exact assignable)
  simp [Arguments.allIssues, gathered, none]

/-- A call with at most one plain argument and then keywords. -/
theorem reads_call {name : String} (first : Option (List Mark))
    (keywords : List (String × List Mark)) (named : isKeyword name = false)
    (plain : ∀ marks ∈ first, Reads marks)
    (free : ∀ keyword ∈ keywords, isKeyword keyword.1 = false)
    (values : ∀ keyword ∈ keywords, Reads keyword.2)
    (distinct : (keywords.map Prod.fst).Nodup)
    (assignable : "__debug__" ∉ keywords.map Prod.fst) :
    Reads (callMarks name (first.toList ++ keywords.map keywordMarks)) := by
  intro machine closable line phase
  let opened : Machine := { machine with
    frames := .call {} :: machine.frames, phase := .operand true }
  have opening : Machine.read { machine with phase := .afterOperand (.name name) }
      ⟨.sign '(', line⟩ = .ok opened := by
    simp [Machine.read, pushFrame, opened]
  have clean := gathered_clean line keywords distinct assignable
  have ordered := gathered_ordered {} line keywords rfl
  -- Once every argument is read, the frame holds the keywords and the bracket closes.
  have finish : ∀ last, Machine.readAll { opened with
      frames := .call (gathered {} line keywords) :: machine.frames
      phase := .afterOperand last } (onLine line [.sign ')']) =
      .ok { machine with phase := .afterOperand .compound } := fun last =>
    readAll_step (close_call _ line rfl rfl ordered clean) []
  refine ⟨.compound, ?_⟩
  rw [callMarks, onLine_cons, onLine_cons, onLine_append,
    readAll_step (read_name machine line phase named), readAll_step opening]
  cases first with
  | some marks =>
      obtain ⟨operand, read⟩ := plain marks rfl opened true line rfl
      obtain ⟨last, others⟩ := read_keywords { opened with phase := .afterOperand operand } line
        keywords rfl rfl rfl free values
      rw [Option.toList_some, List.singleton_append, joined_cons, onLine_append,
        List.append_assoc, readAll_append read, readAll_append others]
      exact finish last
  | none =>
      cases keywords with
      | nil =>
          have closing : Machine.read opened ⟨.sign ')', line⟩ =
              .ok { machine with phase := .afterOperand .compound } := by
            simp [Machine.read, opened, readOperand, closeFrame, Arguments.allIssues,
              keywordIssue]
          exact readAll_step closing []
      | cons keyword rest =>
          obtain ⟨operand, read⟩ := read_keyword opened line keyword rfl rfl rfl
            (free keyword (by simp)) (values keyword (by simp))
          obtain ⟨last, others⟩ := read_keywords { opened with
              frames := .call (Arguments.addKeyword {} keyword.1 line) :: machine.frames
              phase := .afterOperand operand } line rest rfl rfl rfl
            (fun other member => free other (by simp [member]))
            (fun other member => values other (by simp [member]))
          rw [Option.toList_none, List.nil_append, List.map_cons, joined_cons, onLine_append,
            List.append_assoc, readAll_append read, readAll_append others]
          have same : gathered (Arguments.addKeyword {} keyword.1 line) line rest =
              gathered {} line (keyword :: rest) := by
            simp [gathered, Arguments.addKeyword]
          rw [same]
          exact finish last

end Calls

section Collections

theorem read_entry (machine : Machine) {closable : Bool} {outer : List Frame} (line : Nat)
    (entry : List Char × List Mark) (phase : machine.phase = .operand closable)
    (frames : machine.frames = .entries false none :: outer) (value : Reads entry.2) :
    ∃ operand, machine.readAll (onLine line (entryMarks entry)) =
      .ok { machine with
        frames := .entries true none :: outer, phase := .afterOperand operand } := by
  let valued : Machine := { machine with
    frames := .entries true none :: outer, phase := .operand false }
  have key : machine.read ⟨.text entry.1, line⟩ =
      .ok { machine with phase := .afterOperand .text } := by
    simp [Machine.read, phase, readOperand, goTo]
  have colon : Machine.read { machine with phase := .afterOperand .text } ⟨.sign ':', line⟩ =
      .ok valued := by
    simp [Machine.read, readColon, frames, setFrame, valued]
  obtain ⟨operand, read⟩ := value valued false line rfl
  refine ⟨operand, ?_⟩
  rw [entryMarks, onLine_cons, onLine_cons, readAll_step key, readAll_step colon, read]

theorem read_entries (machine : Machine) {operand : Operand} {outer : List Frame} (line : Nat)
    (entries : List (List Char × List Mark)) (phase : machine.phase = .afterOperand operand)
    (frames : machine.frames = .entries true none :: outer)
    (values : ∀ entry ∈ entries, Reads entry.2) :
    ∃ last, machine.readAll (onLine line ((entries.map entryMarks).flatMap (.sign ',' :: ·))) =
      .ok { machine with phase := .afterOperand last } := by
  induction entries generalizing machine operand with
  | nil =>
      refine ⟨operand, ?_⟩
      simp [readAll, ← phase]
  | cons entry rest ih =>
      let parted : Machine := { machine with
        frames := .entries false none :: outer, phase := .operand true }
      have comma : machine.read ⟨.sign ',', line⟩ = .ok parted := by
        simp [Machine.read, phase, readComma, frames, setFrame, parted]
      obtain ⟨middle, first⟩ := read_entry parted line entry rfl rfl (values entry (by simp))
      obtain ⟨last, others⟩ := ih { machine with phase := .afterOperand middle } rfl frames
        (fun other member => values other (by simp [member]))
      refine ⟨last, ?_⟩
      rw [List.map_cons, List.flatMap_cons, onLine_append, onLine_cons, List.cons_append,
        readAll_step comma, readAll_append first]
      simp only [parted, ← frames]
      exact others

theorem reads_mapping (entries : List (List Char × List Mark)) (filled : entries ≠ [])
    (values : ∀ entry ∈ entries, Reads entry.2) : Reads (mappingMarks entries) := by
  intro machine closable line phase
  let opened : Machine := { machine with
    frames := .entries false none :: machine.frames, phase := .operand true }
  have opening : machine.read ⟨.sign '\x7b', line⟩ = .ok opened := by
    simp [Machine.read, phase, readOperand, pushFrame, opened]
  obtain ⟨entry, rest, rfl⟩ := List.exists_cons_of_ne_nil filled
  obtain ⟨operand, first⟩ := read_entry opened line entry rfl rfl (values entry (by simp))
  let begun : Machine := { machine with
    frames := .entries true none :: machine.frames, phase := .afterOperand operand }
  obtain ⟨last, others⟩ := read_entries begun line rest rfl rfl
    (fun other member => values other (by simp [member]))
  have closing : Machine.read { begun with phase := .afterOperand last } ⟨.sign '\x7d', line⟩ =
      .ok { machine with phase := .afterOperand .compound } := by
    simp [Machine.read, isClosable, closeFrame, begun]
  refine ⟨.compound, ?_⟩
  rw [mappingMarks, onLine_cons, readAll_step opening, List.map_cons, joined_cons,
    onLine_append, onLine_append, List.append_assoc, readAll_append first, readAll_append others]
  exact readAll_step closing []

theorem read_items (machine : Machine) {operand : Operand} {outer : List Frame} (line : Nat)
    (names : List String) (phase : machine.phase = .afterOperand operand)
    (frames : machine.frames = .items ')' none :: outer)
    (free : ∀ name ∈ names, isKeyword name = false) :
    ∃ last, machine.readAll (onLine line
        ((names.map fun name => [Mark.word name]).flatMap (.sign ',' :: ·))) =
      .ok { machine with phase := .afterOperand last } := by
  induction names generalizing machine operand with
  | nil =>
      refine ⟨operand, ?_⟩
      simp [readAll, ← phase]
  | cons name rest ih =>
      have comma : machine.read ⟨.sign ',', line⟩ =
          .ok { machine with phase := .operand true } := by
        simp [Machine.read, phase, readComma, frames, goTo]
      obtain ⟨last, others⟩ := ih { machine with phase := .afterOperand (.name name) } rfl frames
        (fun other member => free other (by simp [member]))
      refine ⟨last, ?_⟩
      simp only [List.map_cons, List.flatMap_cons, List.cons_append, List.nil_append, onLine_cons]
      rw [readAll_step comma, readAll_step (read_name _ line rfl (free name (by simp)))]
      exact others

theorem reads_tuple (names : List String) (filled : names ≠ [])
    (free : ∀ name ∈ names, isKeyword name = false) : Reads (tupleMarks names) := by
  intro machine closable line phase
  let opened : Machine := { machine with
    frames := .items ')' none :: machine.frames, phase := .operand true }
  have opening : machine.read ⟨.sign '(', line⟩ = .ok opened := by
    simp [Machine.read, phase, readOperand, pushFrame, opened]
  obtain ⟨name, rest, rfl⟩ := List.exists_cons_of_ne_nil filled
  have first := read_name opened line rfl (free name (by simp))
  obtain ⟨last, others⟩ := read_items { opened with phase := .afterOperand (.name name) } line rest
    rfl rfl (fun other member => free other (by simp [member]))
  refine ⟨.compound, ?_⟩
  rw [tupleMarks, onLine_cons, readAll_step opening, List.map_cons, joined_cons]
  simp only [List.append_assoc, List.cons_append, List.nil_append, onLine_cons]
  rw [readAll_step first, onLine_append, readAll_append others]
  -- The comma of a tuple of one name is followed by nothing but the bracket.
  have comma : Machine.read { opened with phase := .afterOperand last } ⟨.sign ',', line⟩ =
      .ok opened := by
    simp [Machine.read, opened, readComma, goTo]
  have closing : ∀ phase, phase = .operand true ∨ phase = .afterOperand last →
      Machine.read { opened with phase } ⟨.sign ')', line⟩ =
        .ok { machine with phase := .afterOperand .compound } := by
    intro phase either
    rcases either with rfl | rfl <;>
      simp [Machine.read, opened, readOperand, isClosable, closeFrame]
  split
  · simp only [List.cons_append, List.nil_append, onLine_cons]
    rw [readAll_step comma]
    exact readAll_step (closing _ (Or.inl rfl)) []
  · exact readAll_step (closing _ (Or.inr rfl)) []

end Collections

section Statements

/-! Between two statements only the open classes and the first issue are known. -/

def between (classes : List ClassHead) (issue : Issue) : Machine :=
  { classes, issue }

theorem read_target (machine : Machine) (line : Nat) {name : String}
    (phase : machine.phase = .statement) (free : isKeyword name = false) :
    machine.read ⟨.word name, line⟩ = .ok { machine with phase := .afterOperand (.name name) } := by
  have reserved : ∀ word ∈ ["class", "pass", "from", "import"], name ≠ word := by
    have all : ∀ word ∈ ["class", "pass", "from", "import"], isKeyword word = true := by decide
    intro word member same
    rw [same, all word member] at free
    cases free
  simp only [List.mem_cons, List.not_mem_nil, or_false, forall_eq_or_imp, forall_eq] at reserved
  obtain ⟨notClass, notPass, notFrom, notImport⟩ := reserved
  simp only [Machine.read, phase]
  unfold readStatement
  split <;> simp_all [readOperand, not_constant free, goTo]

theorem read_assignment (classes : List ClassHead) (issue : Issue) (line : Nat) {name : String}
    {value : List Mark} (free : isKeyword name = false) (read : Reads value) :
    (between classes issue).readAll
        (onLine line (.word name :: .sign '=' :: (value ++ [.newline]))) =
      .ok (between classes (issue <|> assignmentIssue [⟨name, line⟩])) := by
  let assigned : Machine :=
    { between classes issue with targets := [⟨name, line⟩], phase := .operand false }
  have equals : Machine.read { between classes issue with phase := .afterOperand (.name name) }
      ⟨.sign '=', line⟩ = .ok assigned := by
    simp [Machine.read, between, readEquals, assigned]
  obtain ⟨operand, valued⟩ := read assigned false line rfl
  have lineEnd : Machine.read { assigned with phase := .afterOperand operand }
      ⟨.newline, line⟩ = .ok (between classes (issue <|> assignmentIssue [⟨name, line⟩])) := by
    simp [Machine.read, assigned, between, readAfterOperand, endStatement]
  rw [onLine_cons, onLine_cons, onLine_append, readAll_step (read_target _ line rfl free),
    readAll_step equals, readAll_append valued]
  exact readAll_step lineEnd []

theorem read_pass (classes : List ClassHead) (issue : Issue) (line : Nat) :
    (between classes issue).readAll (onLine line [.word "pass", .newline]) =
      .ok (between classes issue) := by
  simp [readAll, between, Machine.read, readStatement, goTo, endStatement, assignmentIssue]

theorem read_docstring (classes : List ClassHead) (issue : Issue) (body : List Char)
    (line below : Nat) :
    (between classes issue).readAll [⟨.text body, line⟩, ⟨.newline, below⟩] =
      .ok (between classes issue) := by
  simp [readAll, between, Machine.read, readStatement, readOperand, readAfterOperand, goTo,
    endStatement, assignmentIssue]

/-- After the line of a class statement its block is still to come. -/
def opening (head : ClassHead) (classes : List ClassHead) (issue : Issue) : Machine :=
  { between classes issue with phase := .classBlock head }

def classMarks (name base : String) : List Mark :=
  [.word "class", .word name, .sign '(', .word base, .sign ')', .sign ':']

theorem read_class (classes : List ClassHead) (issue : Issue) (line : Nat) {name base : String}
    (free : isKeyword name = false) (baseFree : isKeyword base = false) :
    (between classes issue).readAll (onLine line (classMarks name base ++ [.newline])) =
      .ok (opening ⟨⟨name, line⟩, none⟩ classes issue) := by
  simp [classMarks, readAll, between, opening, Machine.read, readStatement, readName, nameOf?,
    free, goTo, readClassHead, pushFrame, readOperand, not_constant baseFree, baseFree,
    isClosable, Arguments.inOrder, closeFrame, Arguments.allIssues, keywordIssue]

theorem read_plain_class (classes : List ClassHead) (issue : Issue) (line : Nat) {name : String}
    (free : isKeyword name = false) :
    (between classes issue).readAll
        (onLine line [.word "class", .word name, .sign ':', .newline]) =
      .ok (opening ⟨⟨name, line⟩, none⟩ classes issue) := by
  simp [readAll, between, opening, Machine.read, readStatement, readName, nameOf?, free, goTo,
    readClassHead]

theorem read_indent (head : ClassHead) (classes : List ClassHead) (issue : Issue) (line : Nat) :
    (opening head classes issue).read ⟨.indent, line⟩ = .ok (between (head :: classes) issue) := by
  simp [opening, between, Machine.read]

theorem read_dedent (head : ClassHead) (classes : List ClassHead) (issue : Issue) (line : Nat) :
    (between (head :: classes) issue).read ⟨.dedent, line⟩ =
      .ok (between classes (issue <|> head.allIssues)) := by
  simp [between, Machine.read, readStatement, endClass]

theorem read_imported (machine : Machine) (line : Nat) (symbols : List String)
    (phase : machine.phase = .afterImported)
    (free : ∀ symbol ∈ symbols, isKeyword symbol = false) :
    machine.readAll (onLine line ((symbols.map fun symbol => [Mark.word symbol]).flatMap
        (.sign ',' :: ·))) =
      .ok { machine with
        targets := machine.targets ++ symbols.map fun symbol => ⟨symbol, line⟩ } := by
  induction symbols generalizing machine with
  | nil => simp [readAll]
  | cons symbol rest ih =>
      have comma : machine.read ⟨.sign ',', line⟩ =
          .ok { machine with phase := .importedName } := by
        simp [Machine.read, phase, readAfterImported, goTo]
      have name : Machine.read { machine with phase := .importedName } ⟨.word symbol, line⟩ =
          .ok { machine with targets := machine.targets ++ [⟨symbol, line⟩] } := by
        simp [Machine.read, readImported, readName, nameOf?, free symbol (by simp), ← phase]
      simp only [List.map_cons, List.flatMap_cons, List.cons_append, List.nil_append, onLine_cons]
      rw [readAll_step comma, readAll_step name,
        ih { machine with targets := machine.targets ++ [⟨symbol, line⟩] } phase
          (fun other member => free other (by simp [member]))]
      simp

def importMarks (framework : String) (symbols : List String) : List Mark :=
  .word "from" :: .word framework :: .word "import" ::
    joined (symbols.map fun symbol => [.word symbol])

theorem read_import (classes : List ClassHead) (issue : Issue) (line : Nat) {framework : String}
    (symbols : List String) (named : isKeyword framework = false) (filled : symbols ≠ [])
    (free : ∀ symbol ∈ symbols, isKeyword symbol = false) :
    (between classes issue).readAll
        (onLine line (importMarks framework symbols ++ [.newline])) =
      .ok (between classes
        (issue <|> assignmentIssue (symbols.map fun symbol => ⟨symbol, line⟩))) := by
  obtain ⟨symbol, rest, rfl⟩ := List.exists_cons_of_ne_nil filled
  let first : Machine :=
    { between classes issue with phase := .afterImported, targets := [⟨symbol, line⟩] }
  have begun : (between classes issue).readAll
      (onLine line [.word "from", .word framework, .word "import", .word symbol]) = .ok first := by
    have notImport : framework ≠ "import" := by
      intro same
      rw [same] at named
      revert named
      decide
    simp [readAll, between, first, Machine.read, readStatement, goTo, readFrom, notImport,
      readName, nameOf?, named, readFromName, readImported, free symbol (by simp)]
  have others := read_imported first line rest rfl
    (fun other member => free other (by simp [member]))
  have lineEnd : Machine.read
      { first with targets := first.targets ++ rest.map fun other => ⟨other, line⟩ }
      ⟨.newline, line⟩ =
      .ok (between classes
        (issue <|> assignmentIssue ((symbol :: rest).map fun other => ⟨other, line⟩))) := by
    simp [Machine.read, first, readAfterImported, between, endStatement]
  rw [importMarks, List.map_cons, joined_cons]
  have shape : .word "from" :: .word framework :: .word "import" ::
      ([Mark.word symbol] ++ (rest.map fun other => [Mark.word other]).flatMap (.sign ',' :: ·)) ++
        [.newline] =
      [.word "from", .word framework, .word "import", .word symbol] ++
        (rest.map fun other => [Mark.word other]).flatMap (.sign ',' :: ·) ++ [.newline] := by
    simp
  rw [shape, onLine_append, onLine_append, List.append_assoc, readAll_append begun,
    readAll_append others]
  exact readAll_step lineEnd []

end Statements

end Machine

end SchemaClasses.Check
