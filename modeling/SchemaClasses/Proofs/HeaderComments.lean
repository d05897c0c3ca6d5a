import SchemaClasses.Proofs.HeaderLines
import SchemaClasses.Proofs.LineLayout
import SchemaClasses.Proofs.MovedLines

/-!
A header above a module. A line of comment is skipped, so what is below it is read as before, only
further down. White space that is not known to the lexer makes a line something else: before a
comment it begins a word that no name starts with.
-/

namespace SchemaClasses.Check

open Text

/-- White space that is skipped at the start of a line. -/
def isMarginBlank (c : Char) : Bool :=
  c = ' ' || c = '\t' || c = '\x0c'

theorem isMarginBlank_iff (c : Char) :
    isMarginBlank c = true ↔ c = ' ' ∨ c = '\t' ∨ c = '\x0c' := by
  simp [isMarginBlank, or_assoc]

/-- A single line on which nothing but a comment stands. -/
def CommentLine (line : List Char) : Prop :=
  ∃ margin rest, line = margin ++ '#' :: rest ∧ (∀ c ∈ margin, isMarginBlank c = true) ∧
    '\n' ∉ line ∧ '\r' ∉ line

theorem commentLine_iff (line : List Char) :
    (line.dropWhile isMarginBlank).head? = some '#' ∧ '\n' ∉ line ∧ '\r' ∉ line ↔
      CommentLine line := by
  rw [Header.dropWhile_head_iff (by decide) line]
  constructor
  · rintro ⟨⟨margin, rest, shape, skipped⟩, single⟩
    exact ⟨margin, rest, shape, skipped, single⟩
  · rintro ⟨margin, rest, shape, skipped, single⟩
    exact ⟨⟨margin, rest, shape, skipped⟩, single⟩

instance (line : List Char) : Decidable (CommentLine line) :=
  decidable_of_iff _ (commentLine_iff line)

namespace Layout

section Comments

def inMargin (line width : Nat) : Layout :=
  { line, mode := .margin width }

theorem readAll_margin {margin : List Char} (skipped : ∀ c ∈ margin, isMarginBlank c = true)
    (line width : Nat) (rest : List Char) :
    ∃ inner, readAll (inMargin line width) (margin ++ rest) =
      readAll (inMargin line inner) rest := by
  induction margin generalizing width with
  | nil => exact ⟨width, rfl⟩
  | cons c margin ih =>
      have later := fun d listed => skipped d (List.mem_cons_of_mem c listed)
      -- Each of them leaves the reader in the margin, at some width.
      have step : ∃ next, Layout.read (inMargin line width) c = .ok (inMargin line next, []) := by
        rcases (isMarginBlank_iff c).mp (skipped c (by simp)) with rfl | rfl | rfl
        · exact ⟨width + 1, rfl⟩
        · exact ⟨(width / 8 + 1) * 8, rfl⟩
        · exact ⟨0, rfl⟩
      obtain ⟨next, step⟩ := step
      obtain ⟨inner, read⟩ := ih later next
      refine ⟨inner, ?_⟩
      rw [List.cons_append, readAll_step step, after_nil, read]

theorem readAll_comment {body : List Char} (within : '\n' ∉ body) (line : Nat) (rest : List Char) :
    readAll { line, mode := .comment true } (body ++ '\n' :: rest) =
      readAll (atMargin (line + 1) []) rest := by
  induction body with
  | nil =>
      have step : Layout.read { line, mode := .comment true } '\n' =
          .ok (atMargin (line + 1) [], []) := rfl
      rw [List.nil_append, readAll_step step, after_nil]
  | cons c body ih =>
      rw [List.mem_cons, not_or] at within
      have step : Layout.read { line, mode := .comment true } c =
          .ok ({ line, mode := .comment true }, []) := by
        simp [Layout.read, readComment, goOn, Ne.symm within.1]
      rw [List.cons_append, readAll_step step, after_nil, ih within.2]

theorem readAll_commentLine {text : List Char} (comment : CommentLine text) (line : Nat)
    (rest : List Char) :
    readAll (atMargin line []) (text ++ '\n' :: rest) = readAll (atMargin (line + 1) []) rest := by
  obtain ⟨margin, body, rfl, skipped, within, _⟩ := comment
  obtain ⟨inner, read⟩ := readAll_margin skipped line 0 ('#' :: body ++ '\n' :: rest)
  have step : Layout.read (inMargin line inner) '#' =
      .ok ({ line, mode := .comment true }, []) := rfl
  have quiet : '\n' ∉ body := fun listed => within (by simp [listed])
  rw [List.append_assoc]
  refine read.trans ?_
  rw [List.cons_append, readAll_step step, after_nil, readAll_comment quiet]

theorem readAll_commentLines {lines : List (List Char)}
    (comments : ∀ line ∈ lines, CommentLine line) (line : Nat) (rest : List Char) :
    readAll (atMargin line []) (lines.flatMap (· ++ ['\n']) ++ rest) =
      readAll (atMargin (line + lines.length) []) rest := by
  induction lines generalizing line with
  | nil => rfl
  | cons first lines ih =>
      have others := ih fun other listed => comments other (List.mem_cons_of_mem first listed)
      rw [List.flatMap_cons, List.append_assoc, List.append_assoc, List.singleton_append,
        readAll_commentLine (comments first (by simp)), others, List.length_cons,
        Nat.add_right_comm, Nat.add_assoc]

end Comments

section Foreign

/-! Blank characters that are not skipped. -/

theorem foreign_cases {c : Char} (blank : isBlank c = true) (within : InLine c)
    (foreign : isMarginBlank c = false) :
    c = '\x1f' ∨ 128 ≤ c.toNat ∧ isLetter c = false := by
  by_cases ascii : c.toNat < 128
  · left
    exact Naming.of_sevenBits (fun c => isBlank c = true → InLine c → isMarginBlank c = false →
      c = '\x1f') ascii (by decide +kernel) blank within foreign
  · right
    refine ⟨Nat.le_of_not_lt ascii, ?_⟩
    simp only [isBlank, inRanges, blankRanges, List.any_cons, List.any_nil, Bool.or_eq_true,
      Bool.and_eq_true, decide_eq_true_eq, Bool.or_false] at blank
    simp only [isLetter, inRanges, letterRanges, List.any_cons, List.any_nil, Bool.or_eq_false_iff,
      Bool.and_eq_false_iff, decide_eq_false_iff_not, Bool.or_false]
    omega

theorem endWord_foreign {first : Char} (foreign : isLetter first = false) (noMark : first ≠ '_')
    (layout : Layout) {read : List Char} (starts : read.getLast? = some first) :
    layout.endWord read = layout.flawed .unspecified := by
  obtain ⟨rest, shape⟩ : ∃ rest, read.reverse = first :: rest := by
    rw [← List.head?_eq_some_iff, List.head?_reverse, starts]
  have other : isIdentifier read.reverse = false := by
    simp [shape, isIdentifier, foreign, noMark]
  simp [endWord, other]

/-- A word that starts with no letter is refused where it ends. -/
theorem readAll_foreignWord {first : Char} (foreign : isLetter first = false)
    (noMark : first ≠ '_') (layout : Layout) {read : List Char}
    (starts : read.getLast? = some first) (text rest : List Char) :
    ∃ flaw, readAll { layout with mode := .word read } (text ++ '#' :: rest) = .error flaw := by
  induction text generalizing read with
  | nil =>
      have ends : isWordPart '#' = false := by decide
      simp [readAll, Layout.read, ends, endWord_foreign foreign noMark _ starts, readAfter, flawed]
  | cons c text ih =>
      by_cases part : isWordPart c = true
      · have step : Layout.read { layout with mode := .word read } c =
            .ok ({ layout with mode := .word (c :: read) }, []) := by
          simp [Layout.read, part, goOn]
        have longer : (c :: read).getLast? = some first := by
          simp [List.getLast?_cons, starts]
        rw [List.cons_append, readAll_step step, after_nil]
        exact ih longer
      · simp [readAll, Layout.read, part, endWord_foreign foreign noMark _ starts, readAfter,
          flawed]

theorem exists_shifts (width : Nat) : ∃ inner marks, Shifts [] width inner marks := by
  by_cases flush : width = 0
  · exact ⟨[], [], shifts_same flush.symm⟩
  · exact ⟨[width], [.indent], shifts_deeper (Nat.pos_of_ne_zero flush)⟩

/-- A foreign blank is read as code. It is refused at once, or begins a word. -/
theorem readAll_foreignBlank {c : Char} (blank : isBlank c = true) (within : InLine c)
    (foreign : isMarginBlank c = false) (line width : Nat) (text rest : List Char) :
    ∃ flaw, readAll (inMargin line width) (c :: text ++ '#' :: rest) = .error flaw := by
  have visible : c ∉ [' ', '\t', '\x0c', '\n', '#'] := by
    intro listed
    have none : ∀ d ∈ [' ', '\t', '\x0c', '\n', '#'],
        ¬ (isBlank d = true ∧ InLine d ∧ isMarginBlank d = false) := Naming.of_listed _ (by decide)
    exact none c listed ⟨blank, within, foreign⟩
  obtain ⟨inner, marks, shifts⟩ := exists_shifts width
  have entered := readAll_enter shifts (atMargin line []) rfl visible (text ++ '#' :: rest)
  let inside : Layout := { atMargin line [] with mode := .code, indents := inner }
  have stopped : ∃ flaw, readAll inside (c :: (text ++ '#' :: rest)) = .error flaw := by
    rcases foreign_cases blank within foreign with rfl | ⟨wide, noLetter⟩
    · exact ⟨_, rfl⟩
    · have start : isWordStart c = true := by simp [isWordStart, wide]
      have control := not_control_of_isWordStart start
      simp only [List.mem_cons, List.not_mem_nil, or_false, not_or] at control
      have step : Layout.read inside c = .ok ({ inside with mode := .word [c] }, []) := by
        simp [Layout.read, inside, readCode, control, start, goOn]
      have noMark : c ≠ '_' := by
        rintro rfl
        exact absurd wide (by decide)
      rw [readAll_step step, after_nil]
      exact readAll_foreignWord noLetter noMark inside rfl text rest
  obtain ⟨flaw, error⟩ := stopped
  refine ⟨flaw, entered.trans ?_⟩
  show after _ (readAll inside _) = _
  rw [error]
  rfl

theorem readAll_foreign {text : List Char} (starts : Header.StartsComment text)
    (within : ∀ c ∈ text, InLine c) (other : ¬ CommentLine text) (line : Nat) (rest : List Char) :
    ∃ flaw, readAll (atMargin line []) (text ++ rest) = .error flaw := by
  obtain ⟨margin, body, rfl, blank⟩ := starts
  have parted : margin.takeWhile isMarginBlank ++ margin.dropWhile isMarginBlank = margin :=
    List.takeWhile_append_dropWhile
  cases shape : margin.dropWhile isMarginBlank with
  | nil =>
      -- All of the margin is skipped, so this is a comment.
      refine absurd ⟨margin, body, rfl, List.dropWhile_eq_nil_iff.mp shape, ?_, ?_⟩ other
      · exact fun listed => absurd (within _ listed).1 (by decide)
      · exact fun listed => (within _ listed).2 rfl
  | cons c more =>
      have listed : c ∈ margin := by
        rw [← parted, shape]
        simp
      have foreign : isMarginBlank c = false := by
        simpa [shape] using List.head?_dropWhile_not isMarginBlank margin
      obtain ⟨inner, read⟩ := readAll_margin (fun d taken => List.mem_takeWhile_imp taken) line 0
        (c :: more ++ '#' :: (body ++ rest))
      obtain ⟨flaw, stopped⟩ := readAll_foreignBlank (blank c listed) (within c (by simp [listed]))
        foreign line inner more (body ++ rest)
      refine ⟨flaw, ?_⟩
      rw [← parted, shape, List.append_assoc, List.append_assoc]
      exact read.trans stopped

/-- The first line that is no comment ends the reading. -/
theorem readAll_stops {lines : List (List Char)}
    (starts : ∀ line ∈ lines, Header.StartsComment line ∧ ∀ c ∈ line, InLine c)
    (other : ∃ line ∈ lines, ¬ CommentLine line) (line : Nat) (rest : List Char) :
    ∃ flaw, readAll (atMargin line []) (lines.flatMap (· ++ ['\n']) ++ rest) = .error flaw := by
  induction lines generalizing line with
  | nil => simp at other
  | cons first lines ih =>
      rw [List.flatMap_cons, List.append_assoc, List.append_assoc, List.singleton_append]
      by_cases comment : CommentLine first
      · rw [readAll_commentLine comment]
        refine ih (fun other listed => starts other (by simp [listed])) ?_ (line + 1)
        simpa [comment] using other
      · obtain ⟨starting, within⟩ := starts first (by simp)
        exact readAll_foreign starting within comment line _

end Foreign

end Layout

section Texts

/-- A text that ends its last line leaves the text below it as it is. -/
theorem sourceText_above {above : List Char} (quiet : '\r' ∉ above)
    (ended : above.getLast? = some '\n') (content : List Char) :
    sourceText (above ++ content) = above ++ if content = [] then [] else sourceText content := by
  unfold sourceText
  rw [unifyNewlines_append quiet]
  by_cases empty : content = []
  · simp [empty, unifyNewlines, ended]
  · have filled : unifyNewlines content ≠ [] := mt unifyNewlines_eq_nil.mp empty
    simp only [List.getLast?_append_of_ne_nil _ filled, empty, if_false]
    split
    · rfl
    · rw [List.append_assoc]

theorem problem?_eq_none (text : String) :
    problem? text = none ↔
      '\x00' ∉ text.toList ∧ ∃ outlined, outline text = .ok outlined ∧ outlined.flaw? = none := by
  unfold problem?
  by_cases null : '\x00' ∈ text.toList
  · simp [null]
  · cases found : outline text <;> simp [null]

end Texts

end SchemaClasses.Check

namespace SchemaClasses.Header

open Check Text

section Above

variable {header : String}

/-- The lines above a content, with the blank one. -/
def above (header : String) : List Char :=
  ((commentLines header).map String.toList).flatMap (· ++ ['\n']) ++ ['\n']

theorem addTo_above (filled : commentLines header ≠ []) (content : String) :
    (addTo header content).toList = above header ++ content.toList := by
  rw [(addTo_chars filled content).2, above, List.append_assoc, List.singleton_append]

theorem mem_above {c : Char} (listed : c ∈ above header) :
    c = '\n' ∨ ∃ entry ∈ commentLines header, c ∈ entry.toList := by
  simp only [above, List.mem_append, List.mem_flatMap, List.mem_map, List.mem_singleton] at listed
  rcases listed with ⟨line, ⟨entry, inside, rfl⟩, within | feed⟩ | feed
  · exact .inr ⟨entry, inside, within⟩
  · exact .inl feed
  · exact .inl feed

theorem sourceText_addTo (filled : commentLines header ≠ []) (content : String) :
    sourceText (addTo header content).toList =
      above header ++ if content.toList = [] then [] else sourceText content.toList := by
  rw [addTo_above filled]
  apply sourceText_above
  · intro listed
    rcases mem_above listed with feed | ⟨entry, inside, within⟩
    · cases feed
    · exact ((commentLines_entry inside).2.2 _ within).2 rfl
  · simp [above]

/-- What is below lines of comment is read as if it stood alone, so many lines further down. -/
theorem outline_addTo (filled : commentLines header ≠ [])
    (comments : ∀ entry ∈ commentLines header, CommentLine entry.toList) (content : String) :
    outline (addTo header content) =
      moved ((commentLines header).length + 1)
        (Outline.below ((commentLines header).length + 1)) (outline content) := by
  have each : ∀ line ∈ (commentLines header).map String.toList, CommentLine line := by
    simpa using comments
  have skipped (rest : List Char) : Layout.readAll {} (above header ++ rest) =
      Layout.readAll (({} : Layout).below ((commentLines header).length + 1)) rest := by
    have lines := Layout.readAll_commentLines each 1 ('\n' :: rest)
    rw [List.length_map, Layout.readAll_blank, Nat.add_assoc] at lines
    rw [above, List.append_assoc]
    exact lines
  show outlined (Layout.readAll {} (sourceText (addTo header content).toList)) =
    moved _ _ (outlined (Layout.readAll {} (sourceText content.toList)))
  rw [below_outlined, Layout.below_readAll, sourceText_addTo filled, skipped]
  by_cases empty : content.toList = []
  · rw [if_pos empty, empty]
    rfl
  · rw [if_neg empty]

theorem outline_addTo_refused (other : ∃ entry ∈ commentLines header, ¬ CommentLine entry.toList)
    (content : String) : ∃ flaw, outline (addTo header content) = .error flaw := by
  have filled : commentLines header ≠ [] := by
    rintro none
    simp [none] at other
  have starts : ∀ line ∈ (commentLines header).map String.toList,
      StartsComment line ∧ ∀ c ∈ line, InLine c := by
    intro line listed
    obtain ⟨entry, inside, rfl⟩ := List.mem_map.mp listed
    exact ⟨(commentLines_entry inside).1, (commentLines_entry inside).2.2⟩
  obtain ⟨flaw, stopped⟩ := Layout.readAll_stops starts (by simpa using other) 1
    ('\n' :: if content.toList = [] then [] else sourceText content.toList)
  refine ⟨flaw, ?_⟩
  show outlined (Layout.readAll {} (sourceText (addTo header content).toList)) = _
  rw [sourceText_addTo filled, above, List.append_assoc, List.singleton_append]
  exact congrArg outlined stopped

end Above

section Lines

theorem isBlank_of_isMarginBlank {c : Char} (skipped : isMarginBlank c = true) :
    isBlank c = true := by
  rcases (isMarginBlank_iff c).mp skipped with rfl | rfl | rfl <;> decide

theorem takeWhile_margin {margin : List Char} (blank : ∀ c ∈ margin, isBlank c = true)
    (rest : List Char) : (margin ++ '#' :: rest).takeWhile isBlank = margin := by
  have sign : isBlank '#' = false := by decide
  simp [List.takeWhile_append_of_pos blank, sign]

/-- A line of a header is commented in vain only if it seems to be a comment already. -/
theorem commentLine_commentLine_iff {line : List Char} (within : ∀ c ∈ line, InLine c) :
    CommentLine (commentLine line) ↔
      ∀ margin rest, line = margin ++ '#' :: rest → (∀ c ∈ margin, isBlank c = true) →
        ∀ c ∈ margin, c = ' ' ∨ c = '\t' := by
  have commented := commentLine_commented line
  have noFeed : '\n' ∉ commentLine line := fun listed =>
    absurd (commented.inLine within _ listed).1 (by decide)
  have noReturn : '\r' ∉ commentLine line := fun listed =>
    (commented.inLine within _ listed).2 rfl
  constructor
  · intro comment margin rest shape blank c listed
    rw [commentLine_startsComment ⟨margin, rest, shape, blank⟩] at comment
    obtain ⟨skipped, body, same, each, _⟩ := comment
    -- What stands before the first sign is the same in both readings of the line.
    have margins : margin = skipped := by
      rw [← takeWhile_margin blank rest, ← shape, same,
        takeWhile_margin (fun d inside => isBlank_of_isMarginBlank (each d inside))]
    rcases (isMarginBlank_iff c).mp (each c (margins ▸ listed)) with space | tab | rfl
    · exact .inl space
    · exact .inr tab
    · exact absurd (within '\x0c' (by simp [shape, listed])).1 (by decide)
  · intro plain
    have nothing : ∀ c ∈ ([] : List Char), isMarginBlank c = true := by simp
    generalize commentLine line = entry at commented noFeed noReturn
    cases commented with
    | kept comment =>
        obtain ⟨margin, rest, shape, blank⟩ := comment
        refine ⟨margin, rest, shape, fun c listed => ?_, noFeed, noReturn⟩
        rcases plain margin rest shape blank c listed with rfl | rfl <;> decide
    | marked other filled => exact ⟨[], ' ' :: line, rfl, nothing, noFeed, noReturn⟩
    | blank blank => exact ⟨[], [], rfl, nothing, noFeed, noReturn⟩

end Lines

section Accepted

theorem null_mem_addTo {header : String} (noNull : '\x00' ∉ header.toList) (content : String) :
    '\x00' ∈ (addTo header content).toList ↔ '\x00' ∈ content.toList := by
  by_cases none : commentLines header = []
  · simp [addTo, none]
  · rw [addTo_above none, List.mem_append, or_iff_right]
    intro listed
    rcases mem_above listed with feed | ⟨entry, inside, within⟩
    · cases feed
    · rcases mem_commentLines inside within with known | sign | space
      · exact noNull known
      · cases sign
      · cases space

theorem addTo_accepted {header : String} (noNull : '\x00' ∉ header.toList) (content : String) :
    problem? (addTo header content) = none ↔
      problem? content = none ∧ ∀ entry ∈ commentLines header, CommentLine entry.toList := by
  by_cases none : commentLines header = []
  · simp [addTo, none]
  rw [problem?_eq_none, problem?_eq_none, null_mem_addTo noNull]
  by_cases comments : ∀ entry ∈ commentLines header, CommentLine entry.toList
  · rw [outline_addTo none comments, and_iff_left comments]
    cases outline content with
    | error flaw => simp [moved]
    | ok outlined => simp [moved, below_flaw]
  · obtain ⟨flaw, refused⟩ := outline_addTo_refused (by simpa using comments) content
    simp [refused, comments]

theorem all_commentLines_iff (header : String) :
    (∀ entry ∈ commentLines header, CommentLine entry.toList) ↔
      ∀ line ∈ allLines (dropFinalNewlines header.toList), ∀ margin rest,
        line = margin ++ '#' :: rest → (∀ c ∈ margin, isBlank c = true) →
          ∀ c ∈ margin, c = ' ' ∨ c = '\t' := by
  have within := (allLines_splits (dropFinalNewlines header.toList)).inLine
  rw [commentLines, List.forall_mem_map]
  refine forall₂_congr fun line listed => ?_
  rw [String.toList_ofList]
  exact commentLine_commentLine_iff (within line listed)

/-- A comment, one after a tab, plain text and a blank line, each ended in another way. -/
def mixedHeader : String := "# a\n\t # b\u2028c\r\n\r\n"

end Accepted

end SchemaClasses.Header
