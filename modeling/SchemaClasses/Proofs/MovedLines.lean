import SchemaClasses.Check.Compile

/-!
A text that stands further down. Its tokens, its statements and its flaws are the same, on lines
that are moved by as much as the text.
-/

namespace SchemaClasses.Check

section Moving

def Flaw.below (count : Nat) (flaw : Flaw) : Flaw :=
  { flaw with line := flaw.line + count }

def Token.below (count : Nat) (token : Token) : Token :=
  { token with line := token.line + count }

/-- What comes of a text further down: a flaw is moved with it. -/
def moved {α : Type} (count : Nat) (move : α → α) : Except Flaw α → Except Flaw α
  | .error flaw => .error (flaw.below count)
  | .ok value => .ok (move value)

def Mode.below (count : Nat) : Mode → Mode
  | .margin width => .margin width
  | .code => .code
  | .comment aside => .comment aside
  | .word read => .word read
  | .number read => .number read
  | .quotes quote size start => .quotes quote size (start + count)
  | .text quote long run escaped read start => .text quote long run escaped read (start + count)
  | .continuation => .continuation

end Moving

namespace Layout

def below (count : Nat) (layout : Layout) : Layout :=
  { layout with
    mode := layout.mode.below count
    line := layout.line + count
    brackets := layout.brackets.map fun bracket => (bracket.1, bracket.2 + count) }

def readingBelow (count : Nat) : Reading → Reading :=
  moved count fun reading => (reading.1.below count, reading.2.map (Token.below count))

section Parts

variable (count : Nat) (layout : Layout)

@[simp] theorem below_brackets_isEmpty :
    (layout.below count).brackets.isEmpty = layout.brackets.isEmpty := by
  simp [below]

@[simp] theorem readingBelow_error (flaw : Flaw) :
    readingBelow count (.error flaw) = .error (flaw.below count) := rfl

@[simp] theorem readingBelow_ok (tokens : List Token) :
    readingBelow count (.ok (layout, tokens)) =
      .ok (layout.below count, tokens.map (Token.below count)) := rfl

@[simp] theorem below_flawed (kind : FlawKind) :
    readingBelow count (layout.flawed kind) = (layout.below count).flawed kind := rfl

@[simp] theorem below_goOn (mode : Mode) :
    readingBelow count (layout.goOn mode) = (layout.below count).goOn (mode.below count) := rfl

@[simp] theorem below_emit (mode : Mode) (mark : Mark) :
    readingBelow count (layout.emit mode mark) =
      (layout.below count).emit (mode.below count) mark := rfl

@[simp] theorem below_after (tokens : List Token) (reading : Reading) :
    readingBelow count (after tokens reading) =
      after (tokens.map (Token.below count)) (readingBelow count reading) := by
  cases reading with
  | error flaw => rfl
  | ok result => simp [after, Except.map, readingBelow, moved]

@[simp] theorem below_nextLine : layout.nextLine.below count = (layout.below count).nextLine := by
  simp [below, nextLine, Nat.add_right_comm]

@[simp] theorem below_openBracket (c : Char) :
    readingBelow count (layout.openBracket c) = (layout.below count).openBracket c := by
  unfold openBracket
  rw [apply_ite (readingBelow count), below_flawed]
  simp [below, emit, Token.below, Mode.below]

@[simp] theorem below_closeBracket (c : Char) :
    readingBelow count (layout.closeBracket c) = (layout.below count).closeBracket c := by
  unfold closeBracket
  cases shape : layout.brackets with
  | nil => simp [below, shape, flawed, Flaw.below]
  | cons bracket outer =>
      simp only [below, shape, List.map_cons]
      rw [apply_ite (readingBelow count)]
      simp [below, emit, flawed, Flaw.below, Token.below, Mode.below]

@[simp] theorem below_endLine :
    readingBelow count layout.endLine = (layout.below count).endLine := by
  unfold endLine
  rw [apply_ite (readingBelow count), below_after, below_goOn, below_goOn, below_nextLine,
    below_brackets_isEmpty]
  rfl

@[simp] theorem below_indentTo (width : Nat) :
    readingBelow count (layout.indentTo width) = (layout.below count).indentTo width := by
  unfold indentTo
  simp only [apply_ite (readingBelow count), below_goOn, below_emit, below_flawed,
    readingBelow_ok, List.map_replicate]
  rfl

@[simp] theorem below_endWord (read : List Char) :
    readingBelow count (layout.endWord read) = (layout.below count).endWord read := by
  unfold endWord
  rw [apply_ite (readingBelow count)]
  rfl

@[simp] theorem below_endNumber (read : List Char) :
    readingBelow count (layout.endNumber read) = (layout.below count).endNumber read := by
  unfold endNumber
  rw [apply_ite (readingBelow count)]
  rfl

@[simp] theorem below_endText (read : List Char) (start : Nat) :
    readingBelow count (layout.endText read start) =
      (layout.below count).endText read (start + count) := rfl

end Parts

section Characters

variable (count : Nat) (layout : Layout) (c : Char)

@[simp] theorem below_readCode :
    readingBelow count (layout.readCode c) = (layout.below count).readCode c := by
  unfold readCode
  simp only [apply_ite (readingBelow count), below_goOn, below_endLine, below_openBracket,
    below_closeBracket, below_emit, below_flawed]
  rfl

@[simp] theorem below_readAfter (ended : Reading) :
    readingBelow count (readAfter ended c) = readAfter (readingBelow count ended) c := by
  cases ended with
  | error flaw => rfl
  | ok result =>
      simp only [readAfter, below_after, below_readCode]
      rfl

@[simp] theorem below_readMargin (width : Nat) :
    readingBelow count (layout.readMargin width c) = (layout.below count).readMargin width c := by
  unfold readMargin
  simp only [apply_ite (readingBelow count), below_goOn, below_nextLine, below_readAfter,
    below_indentTo]
  rfl

@[simp] theorem below_readComment (aside : Bool) :
    readingBelow count (layout.readComment aside c) =
      (layout.below count).readComment aside c := by
  unfold readComment
  simp only [apply_ite (readingBelow count), below_goOn, below_nextLine, below_endLine]
  rfl

@[simp] theorem below_readText (quote : Char) (long : Bool) (run : Nat) (escaped : Bool)
    (read : List Char) (start : Nat) :
    readingBelow count (layout.readText quote long run escaped read start c) =
      (layout.below count).readText quote long run escaped read (start + count) c := by
  unfold readText
  simp only [apply_ite (readingBelow count), below_goOn, below_endText, below_flawed,
    apply_ite (below count), below_nextLine]
  rfl

@[simp] theorem below_readQuotes (quote : Char) (size start : Nat) :
    readingBelow count (layout.readQuotes quote size start c) =
      (layout.below count).readQuotes quote size (start + count) c := by
  unfold readQuotes
  simp only [apply_ite (readingBelow count), below_goOn, below_readText, below_readAfter,
    below_endText]
  rfl

/-- One character leads to the same, further down. -/
theorem below_read : readingBelow count (layout.read c) = (layout.below count).read c := by
  obtain ⟨mode, line, brackets, indents, limit⟩ := layout
  cases mode with
  | word read =>
      simp only [Layout.read, apply_ite (readingBelow count), below_goOn, below_readAfter,
        below_endWord]
      rfl
  | number read =>
      simp only [Layout.read, apply_ite (readingBelow count), below_goOn, below_flawed,
        below_readAfter, below_endNumber]
      rfl
  | continuation =>
      simp only [Layout.read, apply_ite (readingBelow count), below_goOn, below_nextLine,
        below_flawed]
      rfl
  | margin width => exact below_readMargin count _ c width
  | code => exact below_readCode count _ c
  | comment aside => exact below_readComment count _ c aside
  | quotes quote size start => exact below_readQuotes count _ c quote size start
  | text quote long run escaped read start =>
      exact below_readText count _ c quote long run escaped read start

theorem below_readAll (text : List Char) :
    readingBelow count (layout.readAll text) = (layout.below count).readAll text := by
  induction text generalizing layout with
  | nil => rfl
  | cons c rest ih =>
      have step := below_read count layout c
      unfold readAll
      cases shape : layout.read c with
      | error flaw =>
          rw [shape] at step
          rw [← step]
          rfl
      | ok result =>
          rw [shape] at step
          rw [← step]
          simp only [below_after, ih]
          rfl

theorem below_finish :
    moved count (List.map (Token.below count)) layout.finish = (layout.below count).finish := by
  obtain ⟨mode, line, brackets, indents, limit⟩ := layout
  cases mode with
  | text quote long run escaped read start => rfl
  | code =>
      simp only [finish, apply_ite (moved count _), below, Mode.below, List.isEmpty_map]
      rfl
  | margin width => simp [finish, moved, below, Mode.below, Token.below]
  | comment aside => simp [finish, moved, below, Mode.below, Token.below]
  | word read => simp [finish, moved, below, Mode.below, Token.below]
  | number read => simp [finish, moved, below, Mode.below, Token.below]
  | quotes quote size start => simp [finish, moved, below, Mode.below, Token.below]
  | continuation => simp [finish, moved, below, Mode.below, Token.below]

end Characters

end Layout

section Issues

def Occurrence.below (count : Nat) (occurrence : Occurrence) : Occurrence :=
  { occurrence with line := occurrence.line + count }

def Issue.below (count : Nat) (issue : Issue) : Issue :=
  issue.map (Flaw.below count)

variable (count : Nat)

@[simp] theorem below_none : Issue.below count none = none := rfl

@[simp] theorem below_or (first second : Issue) :
    Issue.below count (Option.or first second) =
      Option.or (first.below count) (second.below count) := by
  cases first <;> rfl

@[simp] theorem below_assignmentIssue (targets : List Occurrence) :
    (assignmentIssue targets).below count =
      assignmentIssue (targets.map (Occurrence.below count)) := by
  induction targets with
  | nil => rfl
  | cons target rest ih =>
      simp only [List.map_cons, assignmentIssue, ← ih]
      exact apply_ite (Issue.below count) _ _ _

@[simp] theorem below_keywordIssue (keywords : List Occurrence) :
    (keywordIssue keywords).below count = keywordIssue (keywords.map (Occurrence.below count)) := by
  induction keywords with
  | nil => rfl
  | cons keyword rest ih =>
      have found : (rest.map (Occurrence.below count)).find?
            (·.name = (keyword.below count).name) =
          (rest.find? (·.name = keyword.name)).map (Occurrence.below count) := List.find?_map
      by_cases debug : keyword.name = "__debug__"
      · simp [keywordIssue, Occurrence.below, debug, Issue.below, Flaw.below]
      · have plain : ¬ (keyword.below count).name = "__debug__" := debug
        rw [List.map_cons, keywordIssue, keywordIssue, if_neg debug, if_neg plain, found]
        cases rest.find? (·.name = keyword.name) with
        | none => exact ih
        | some again => rfl

def Arguments.below (arguments : Arguments) : Arguments :=
  { arguments with
    keywords := arguments.keywords.map (Occurrence.below count)
    issue := arguments.issue.below count }

def Frame.below : Frame → Frame
  | .call arguments => .call (arguments.below count)
  | .bases owner arguments => .bases (owner.below count) (arguments.below count)
  | .items close issue => .items close (issue.below count)
  | .entries valued issue => .entries valued (issue.below count)

def ClassHead.below (head : ClassHead) : ClassHead :=
  { name := head.name.below count, issue := head.issue.below count }

@[simp] theorem below_argumentIssues (arguments : Arguments) :
    arguments.allIssues.below count = (arguments.below count).allIssues := by
  simp [Arguments.allIssues, Arguments.below]

@[simp] theorem below_addIssue (issue : Issue) (frame : Frame) :
    (frame.addIssue issue).below count = (frame.below count).addIssue (issue.below count) := by
  cases frame <;> simp [Frame.addIssue, Frame.below, Arguments.below]

@[simp] theorem below_classIssues (head : ClassHead) :
    head.allIssues.below count = (head.below count).allIssues := by
  simp [ClassHead.allIssues, ClassHead.below]

end Issues

def Phase.below (count : Nat) : Phase → Phase
  | .className line => .className (line + count)
  | .classHead head => .classHead (head.below count)
  | .classColon head => .classColon (head.below count)
  | .classLine head => .classLine (head.below count)
  | .classBlock head => .classBlock (head.below count)
  | phase => phase

namespace Machine

def below (count : Nat) (machine : Machine) : Machine where
  phase := machine.phase.below count
  frames := machine.frames.map (Frame.below count)
  targets := machine.targets.map (Occurrence.below count)
  valueIssue := machine.valueIssue.below count
  classes := machine.classes.map (ClassHead.below count)
  issue := machine.issue.below count

def outcomeBelow (count : Nat) : Except Flaw Machine → Except Flaw Machine :=
  moved count (Machine.below count)

section Expressions

variable (count : Nat) (machine : Machine) (token : Token)

@[simp] theorem below_mark : (token.below count).mark = token.mark := rfl

@[simp] theorem below_invalid :
    outcomeBelow count (invalid token) = invalid (token.below count) := rfl

@[simp] theorem below_unspecified :
    outcomeBelow count (unspecified token) = unspecified (token.below count) := rfl

@[simp] theorem below_goTo (phase : Phase) :
    outcomeBelow count (machine.goTo phase) = (machine.below count).goTo (phase.below count) := rfl

@[simp] theorem below_pushFrame (frame : Frame) :
    outcomeBelow count (machine.pushFrame frame) =
      (machine.below count).pushFrame (frame.below count) := rfl

@[simp] theorem below_setFrame (frame : Frame) (phase : Phase) :
    outcomeBelow count (machine.setFrame frame phase) =
      (machine.below count).setFrame (frame.below count) (phase.below count) := by
  simp [outcomeBelow, moved, setFrame, below]

@[simp] theorem below_closeOperand (issue : Issue) :
    outcomeBelow count (machine.closeOperand issue) =
      (machine.below count).closeOperand (issue.below count) := by
  unfold closeOperand
  cases shape : machine.frames.drop 1 with
  | nil => simp [outcomeBelow, moved, below, ← List.map_drop, shape, Phase.below]
  | cons outer others => simp [outcomeBelow, moved, below, ← List.map_drop, shape, Phase.below]

section Closing

/-! Which mark closes a bracket, by the kind of the bracket. -/

variable {machine : Machine} {outer : List Frame}

theorem closeFrame_call {arguments : Arguments}
    (inner : machine.frames = .call arguments :: outer) :
    machine.closeFrame token =
      if token.mark = .sign ')' then machine.closeOperand arguments.allIssues
      else invalid token := by
  unfold closeFrame
  rw [inner]
  split <;> simp_all

theorem closeFrame_bases {owner : Occurrence} {arguments : Arguments}
    (inner : machine.frames = .bases owner arguments :: outer) :
    machine.closeFrame token =
      if token.mark = .sign ')' then
        .ok { machine with frames := outer, phase := .classColon ⟨owner, arguments.allIssues⟩ }
      else invalid token := by
  unfold closeFrame
  rw [inner]
  split <;> simp_all

theorem closeFrame_items {close : Char} {issue : Issue}
    (inner : machine.frames = .items close issue :: outer) :
    machine.closeFrame token =
      if token.mark = .sign close then machine.closeOperand issue else invalid token := by
  unfold closeFrame
  rw [inner]
  split <;> simp_all

theorem closeFrame_entries {valued : Bool} {issue : Issue}
    (inner : machine.frames = .entries valued issue :: outer) :
    machine.closeFrame token =
      if token.mark = .sign '\x7d' then machine.closeOperand issue else invalid token := by
  unfold closeFrame
  rw [inner]
  split <;> simp_all

end Closing

@[simp] theorem below_closeFrame :
    outcomeBelow count (machine.closeFrame token) =
      (machine.below count).closeFrame (token.below count) := by
  obtain ⟨phase, frames, targets, valueIssue, classes, issue⟩ := machine
  cases frames with
  | nil => rfl
  | cons frame outer =>
      cases frame with
      | call arguments =>
          rw [closeFrame_call token rfl, closeFrame_call _ rfl, apply_ite (outcomeBelow count),
            below_closeOperand, below_argumentIssues, below_invalid]
          rfl
      | bases owner arguments =>
          -- The one frame whose closing ends no operand: the colon of the class comes next.
          rw [closeFrame_bases token rfl, closeFrame_bases _ rfl, apply_ite (outcomeBelow count),
            below_invalid, ← below_argumentIssues]
          rfl
      | items close issue =>
          rw [closeFrame_items token rfl, closeFrame_items _ rfl, apply_ite (outcomeBelow count),
            below_closeOperand, below_invalid]
          rfl
      | entries valued issue =>
          rw [closeFrame_entries token rfl, closeFrame_entries _ rfl,
            apply_ite (outcomeBelow count), below_closeOperand, below_invalid]
          rfl

@[simp] theorem below_readOperand (closable : Bool) :
    outcomeBelow count (machine.readOperand closable token) =
      (machine.below count).readOperand closable (token.below count) := by
  unfold readOperand
  rw [below_mark]
  split <;> simp only [apply_ite (outcomeBelow count), below_goTo, below_invalid,
    below_pushFrame, below_closeFrame]
  all_goals rfl

@[simp] theorem below_inOrder (arguments : Arguments) :
    Arguments.inOrder (arguments.below count) = Arguments.inOrder arguments := by
  simp [Arguments.inOrder, Arguments.below]

@[simp] theorem below_isClosable : (machine.below count).isClosable = machine.isClosable := by
  obtain ⟨phase, frames, targets, valueIssue, classes, issue⟩ := machine
  cases frames with
  | nil => rfl
  | cons frame outer => cases frame <;> simp [isClosable, below, Frame.below]

@[simp] theorem below_readComma :
    outcomeBelow count (machine.readComma token) =
      (machine.below count).readComma (token.below count) := by
  obtain ⟨phase, frames, targets, valueIssue, classes, issue⟩ := machine
  cases frames with
  | nil => rfl
  | cons frame outer =>
      cases frame with
      | call arguments =>
          simp only [readComma, apply_ite (outcomeBelow count), below_setFrame, below_unspecified]
          rw [← below_inOrder count arguments]
          rfl
      | bases owner arguments =>
          simp only [readComma, apply_ite (outcomeBelow count), below_setFrame, below_unspecified]
          rw [← below_inOrder count arguments]
          rfl
      | items close issue => rfl
      | entries valued issue => cases valued <;> rfl

@[simp] theorem below_endStatement :
    machine.endStatement.below count = (machine.below count).endStatement := by
  simp [below, endStatement, Phase.below]

@[simp] theorem below_addKeyword (arguments : Arguments) (name : String) (line : Nat) :
    (Arguments.addKeyword arguments name line).below count =
      Arguments.addKeyword (arguments.below count) name (line + count) := by
  simp [Arguments.addKeyword, Arguments.below, Occurrence.below]

@[simp] theorem below_readEquals (operand : Operand) :
    outcomeBelow count (machine.readEquals operand token) =
      (machine.below count).readEquals operand (token.below count) := by
  obtain ⟨phase, frames, targets, valueIssue, classes, issue⟩ := machine
  cases frames with
  | nil =>
      cases operand with
      | name text =>
          simp [readEquals, outcomeBelow, moved, below, Phase.below, Occurrence.below, Token.below]
      | text => rfl
      | compound => rfl
  | cons frame outer =>
      cases operand with
      | name text =>
          cases frame with
          | call arguments =>
              simp only [readEquals, apply_ite (outcomeBelow count), below_setFrame,
                below_invalid, below_addKeyword, Frame.below]
              rfl
          | bases owner arguments =>
              simp only [readEquals, apply_ite (outcomeBelow count), below_setFrame,
                below_invalid, below_addKeyword, Frame.below]
              rfl
          | items close issue => rfl
          | entries valued issue => rfl
      | text => cases frame <;> rfl
      | compound => cases frame <;> rfl

@[simp] theorem below_readColon :
    outcomeBelow count (machine.readColon token) =
      (machine.below count).readColon (token.below count) := by
  obtain ⟨phase, frames, targets, valueIssue, classes, issue⟩ := machine
  cases frames with
  | nil => rfl
  | cons frame outer =>
      cases frame with
      | entries valued issue => cases valued <;> rfl
      | call arguments => rfl
      | bases owner arguments => rfl
      | items close issue => rfl

@[simp] theorem below_ended :
    outcomeBelow count (.ok machine.endStatement) = .ok (machine.below count).endStatement := by
  simp [outcomeBelow, moved]

@[simp] theorem below_frames :
    (machine.below count).frames.isEmpty = machine.frames.isEmpty := by
  simp [below]

@[simp] theorem below_readAfterOperand (operand : Operand) :
    outcomeBelow count (machine.readAfterOperand operand token) =
      (machine.below count).readAfterOperand operand (token.below count) := by
  unfold readAfterOperand
  rw [below_mark]
  split <;> simp only [apply_ite (outcomeBelow count), below_goTo, below_invalid,
    below_pushFrame, below_closeFrame, below_readComma, below_readEquals, below_readColon,
    below_isClosable, below_unspecified, below_ended, below_frames]
  all_goals rfl

end Expressions

section Statements

variable (count : Nat) (machine : Machine) (token : Token)

@[simp] theorem below_endClass :
    outcomeBelow count (machine.endClass token) =
      (machine.below count).endClass (token.below count) := by
  unfold endClass
  cases shape : machine.classes with
  | nil => simp [below, shape]
  | cons head outer => simp [outcomeBelow, moved, below, shape]

@[simp] theorem below_readStatement :
    outcomeBelow count (machine.readStatement token) =
      (machine.below count).readStatement (token.below count) := by
  unfold readStatement
  rw [below_mark]
  split <;> simp only [below_endClass, below_unspecified, below_goTo, below_readOperand]
  all_goals rfl

theorem below_readName {next other : String → Except Flaw Machine}
    (same : ∀ name, outcomeBelow count (next name) = other name) :
    outcomeBelow count (readName token next) = readName (token.below count) other := by
  unfold readName
  rw [below_mark]
  cases nameOf? token.mark with
  | none => rfl
  | some name => exact same name

@[simp] theorem below_readFrom (any : Bool) :
    outcomeBelow count (machine.readFrom any token) =
      (machine.below count).readFrom any (token.below count) := by
  unfold readFrom
  rw [below_mark]
  split
  · rfl
  · rw [apply_ite (outcomeBelow count)]
    rfl
  · exact below_readName count token fun _ => rfl

@[simp] theorem below_readFromName :
    outcomeBelow count (machine.readFromName token) =
      (machine.below count).readFromName (token.below count) := by
  unfold readFromName
  rw [below_mark]
  split <;> rfl

@[simp] theorem below_readImported :
    outcomeBelow count (machine.readImported token) =
      (machine.below count).readImported (token.below count) := by
  unfold readImported
  rw [below_mark]
  split
  · rfl
  · apply below_readName
    intro name
    simp [outcomeBelow, moved, below, Phase.below, Occurrence.below, Token.below]

@[simp] theorem below_readAfterImported :
    outcomeBelow count (machine.readAfterImported token) =
      (machine.below count).readAfterImported (token.below count) := by
  unfold readAfterImported
  rw [below_mark]
  split
  · rfl
  · exact below_ended count machine
  · rfl

@[simp] theorem below_readAfterImportPath :
    outcomeBelow count (machine.readAfterImportPath token) =
      (machine.below count).readAfterImportPath (token.below count) := by
  unfold readAfterImportPath
  rw [below_mark]
  split
  · rfl
  · rfl
  · exact below_ended count machine
  · rfl

@[simp] theorem below_readClassHead (head : ClassHead) :
    outcomeBelow count (machine.readClassHead head token) =
      (machine.below count).readClassHead (head.below count) (token.below count) := by
  unfold readClassHead
  rw [below_mark]
  split <;> rfl

/-- One token leads to the same, further down. -/
theorem below_read :
    outcomeBelow count (machine.read token) = (machine.below count).read (token.below count) := by
  obtain ⟨phase, frames, targets, valueIssue, classes, issue⟩ := machine
  cases phase with
  | statement => exact below_readStatement count _ token
  | ended =>
      simp only [Machine.read, apply_ite (outcomeBelow count), below_ended, below_invalid]
      rfl
  | fromDots any => exact below_readFrom count _ token any
  | fromName => exact below_readFromName count _ token
  | fromDot => exact below_readName count token fun _ => rfl
  | importedName => exact below_readImported count _ token
  | afterImported => exact below_readAfterImported count _ token
  | importPath => exact below_readName count token fun _ => rfl
  | afterImportPath => exact below_readAfterImportPath count _ token
  | className line => exact below_readName count token fun _ => rfl
  | classHead head => exact below_readClassHead count _ token head
  | classColon head =>
      simp only [Machine.read, apply_ite (outcomeBelow count), below_goTo, below_invalid]
      rfl
  | classLine head =>
      simp only [Machine.read, apply_ite (outcomeBelow count), below_goTo, below_invalid]
      rfl
  | classBlock head =>
      simp only [Machine.read, apply_ite (outcomeBelow count), below_unspecified]
      rfl
  | operand closable => exact below_readOperand count _ token closable
  | afterOperand operand => exact below_readAfterOperand count _ token operand
  | memberName => exact below_readName count token fun _ => rfl

theorem below_readAll (tokens : List Token) :
    outcomeBelow count (machine.readAll tokens) =
      (machine.below count).readAll (tokens.map (Token.below count)) := by
  induction tokens generalizing machine with
  | nil => rfl
  | cons token rest ih =>
      have step := below_read count machine token
      rw [List.map_cons]
      unfold readAll
      cases shape : machine.read token with
      | error flaw =>
          rw [shape] at step
          rw [← step]
          rfl
      | ok next =>
          rw [shape] at step
          rw [← step]
          exact ih next

end Statements

end Machine

section Outlines

variable (count : Nat)

def Outline.below (outline : Outline) : Outline where
  tokens := outline.tokens.map (Token.below count)
  unclosed := outline.unclosed.map (· + count)

theorem below_phase (machine : Machine) :
    (machine.below count).phase = .statement ↔ machine.phase = .statement := by
  obtain ⟨phase, frames, targets, valueIssue, classes, issue⟩ := machine
  cases phase <;> simp [Machine.below, Phase.below]

/-- The outline that a reading ends in. -/
def outlined (reading : Reading) : Except Flaw Outline := do
  let (layout, tokens) ← reading
  let ending ← layout.finish
  return ⟨tokens ++ ending, layout.brackets.head?.map Prod.snd⟩

theorem below_outlined (reading : Reading) :
    moved count (Outline.below count) (outlined reading) =
      outlined (Layout.readingBelow count reading) := by
  cases reading with
  | error flaw => rfl
  | ok result =>
      obtain ⟨layout, tokens⟩ := result
      have ending := Layout.below_finish count layout
      simp only [outlined, Layout.readingBelow_ok, bind, Except.bind, ← ending]
      cases layout.finish with
      | error flaw => rfl
      | ok last =>
          simp [moved, Outline.below, Layout.below, pure, Except.pure, Function.comp_def]

/-- Whether there is a flaw does not depend on where the text stands. -/
theorem below_flaw (outline : Outline) :
    (outline.below count).flaw? = none ↔ outline.flaw? = none := by
  have read := Machine.below_readAll count {} outline.tokens
  have start : ({} : Machine).below count = {} := rfl
  rw [start] at read
  unfold Outline.flaw?
  simp only [Outline.below]
  rw [← read]
  cases taken : Machine.readAll {} outline.tokens with
  | error flaw => simp [Machine.outcomeBelow, moved]
  | ok machine =>
      cases outline.unclosed with
      | some line => simp [Machine.outcomeBelow, moved]
      | none =>
          simp only [Machine.outcomeBelow, moved, Option.map_none]
          by_cases whole : machine.phase = .statement
          · rw [if_pos whole, if_pos ((below_phase count machine).mpr whole)]
            simp [Machine.below, Issue.below]
          · rw [if_neg whole, if_neg (mt (below_phase count machine).mp whole)]

end Outlines

end SchemaClasses.Check
