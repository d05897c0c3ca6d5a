import Mathlib.Data.List.DropRight
import Mathlib.Data.List.Forall2
import SchemaClasses.Hook.Header
import SchemaClasses.Proofs.ExplicitNames
import SchemaClasses.Proofs.LineEnds
import SchemaClasses.Proofs.TokenLayout

/-!
The comment lines of a header. Every line of the header becomes one line, none is empty or broken
in two, and comment lines are kept as they are, so that a header made of them is its own.
-/

namespace SchemaClasses.Text

section Splitting

/-- A character at which no line ends. -/
def InLine (c : Char) : Prop :=
  isBoundary c = false ∧ c ≠ '\r'

instance (c : Char) : Decidable (InLine c) :=
  inferInstanceAs (Decidable (_ ∧ _))

/-- What stands between two lines. -/
inductive LineEnd : List Char → Prop where
  | boundary {c : Char} (ends : isBoundary c = true) : LineEnd [c]
  | carriageReturn : LineEnd ['\r']
  | both : LineEnd ['\r', '\n']

/-- The lines of a text, without their ends. A line end at the very end of the text opens no
further line, and a carriage return is not parted from a line feed after it. -/
inductive Splits : List Char → List (List Char) → Prop where
  | empty : Splits [] []
  | last {line : List Char} (filled : line ≠ []) (within : ∀ c ∈ line, InLine c) :
      Splits line [line]
  | ended {line ending rest : List Char} {lines : List (List Char)} (within : ∀ c ∈ line, InLine c)
      (ends : LineEnd ending) (whole : ending = ['\r'] → rest.head? ≠ some '\n')
      (later : Splits rest lines) : Splits (line ++ (ending ++ rest)) (line :: lines)

variable {text rest line : List Char} {lines : List (List Char)} {c : Char}

theorem Splits.inLine (splits : Splits text lines) : ∀ line ∈ lines, ∀ c ∈ line, InLine c := by
  induction splits with
  | empty => simp
  | last filled within => simpa using within
  | ended within ends whole later ih => simpa using ⟨within, ih⟩

theorem Splits.mem (splits : Splits text lines) : ∀ line ∈ lines, ∀ c ∈ line, c ∈ text := by
  induction splits with
  | empty => simp
  | last filled within => simp
  | ended within ends whole later ih =>
      intro line listed c inside
      rcases List.mem_cons.mp listed with rfl | below
      · exact List.mem_append_left _ inside
      · exact List.mem_append_right _ (List.mem_append_right _ (ih line below c inside))

theorem Splits.eq_nil (splits : Splits text []) : text = [] := by
  cases splits
  rfl

theorem Splits.blank {ending : List Char} (ends : LineEnd ending)
    (whole : ending = ['\r'] → rest.head? ≠ some '\n') (later : Splits rest lines) :
    Splits (ending ++ rest) ([] :: lines) := by
  have within : ∀ c ∈ ([] : List Char), InLine c := by simp
  exact .ended within ends whole later

theorem Splits.cons (within : InLine c) (splits : Splits rest (line :: lines)) :
    Splits (c :: rest) ((c :: line) :: lines) := by
  cases splits with
  | last filled others => exact .last (by simp) (List.forall_mem_cons.mpr ⟨within, others⟩)
  | ended others ends whole later =>
      exact .ended (List.forall_mem_cons.mpr ⟨within, others⟩) ends whole later

theorem allLines_splits (text : List Char) : Splits text (allLines text) := by
  unfold allLines
  -- Along the unifying of line ends: it alone tells a pair of them from two ends.
  induction text using unifyNewlines.induct with
  | case1 => exact .empty
  | case2 rest ih => exact .blank .both (by simp) ih
  | case3 rest noPair ih =>
      have apart : rest.head? ≠ some '\n' := by
        intro same
        obtain ⟨tail, rfl⟩ := List.head?_eq_some_iff.mp same
        exact noPair tail rfl
      rw [unifyNewlines_return apart]
      exact .blank .carriageReturn (fun _ => apart) ih
  | case4 d rest noPair noReturn ih =>
      have other : d ≠ '\r' := fun same => noReturn same
      rw [unifyNewlines_other other, boundedLines]
      split
      · rename_i ends
        exact .blank (.boundary ends) (by simp [other]) ih
      · rename_i plain
        have within : InLine d := ⟨by simpa using plain, other⟩
        cases shape : boundedLines (unifyNewlines rest) with
        | nil =>
            -- No line is left only where no text is left.
            rw [shape] at ih
            rw [ih.eq_nil]
            exact .last (by simp) (by simpa using within)
        | cons line lines =>
            rw [shape] at ih
            exact ih.cons within

end Splitting

section Joining

theorem boundedLines_append {line : List Char} (within : ∀ c ∈ line, InLine c) (rest : List Char) :
    boundedLines (line ++ '\n' :: rest) = line :: boundedLines rest := by
  induction line with
  | nil => rfl
  | cons c line ih =>
      have plain : isBoundary c = false := (within c (by simp)).1
      rw [List.cons_append, boundedLines, ih fun d listed => within d (by simp [listed])]
      simp [plain]

theorem boundedLines_single {line : List Char} (filled : line ≠ [])
    (within : ∀ c ∈ line, InLine c) : boundedLines line = [line] := by
  induction line with
  | nil => exact absurd rfl filled
  | cons c line ih =>
      have plain : isBoundary c = false := (within c (by simp)).1
      by_cases only : line = []
      · simp [only, boundedLines, plain]
      · rw [boundedLines, ih only fun d listed => within d (by simp [listed])]
        simp [plain]

/-- Lines that are joined come apart again. -/
theorem allLines_join {lines : List (List Char)}
    (each : ∀ line ∈ lines, line ≠ [] ∧ ∀ c ∈ line, InLine c) :
    allLines (['\n'].intercalate lines) = lines := by
  have quiet : '\r' ∉ ['\n'].intercalate lines := by
    intro inside
    rcases Check.mem_intercalate inside with between | ⟨line, listed, within⟩
    · simp at between
    · exact ((each line listed).2 _ within).2 rfl
  have unified := unifyNewlines_append quiet []
  rw [List.append_nil, unifyNewlines, List.append_nil] at unified
  rw [allLines, unified]
  clear quiet unified
  induction lines with
  | nil => rfl
  | cons line lines ih =>
      obtain ⟨filled, within⟩ := each line (by simp)
      have others := ih fun other listed => each other (by simp [listed])
      cases lines with
      | nil => simpa using boundedLines_single filled within
      | cons next lines =>
          rw [List.intercalate_cons_cons, List.append_assoc, List.singleton_append,
            boundedLines_append within, others]

theorem getLast_join {lines : List (List Char)}
    (each : ∀ line ∈ lines, line ≠ [] ∧ ∀ c ∈ line, InLine c) :
    (['\n'].intercalate lines).getLast? ≠ some '\n' := by
  induction lines with
  | nil => simp
  | cons line lines ih =>
      obtain ⟨filled, within⟩ := each line (by simp)
      have others := ih fun other listed => each other (by simp [listed])
      cases lines with
      | nil =>
          intro last
          rw [List.intercalate_singleton] at last
          exact absurd (within _ (List.mem_of_getLast? last)).1 (by decide)
      | cons next lines =>
          have later : ['\n'].intercalate (next :: lines) ≠ [] := by
            rw [Check.intercalate_cons]
            simp [(each next (by simp)).1]
          rwa [List.intercalate_cons_cons, List.getLast?_append_of_ne_nil _ later]

theorem join_ended {lines : List (List Char)} (filled : lines ≠ []) :
    ['\n'].intercalate lines ++ ['\n'] = lines.flatMap (· ++ ['\n']) := by
  induction lines with
  | nil => exact absurd rfl filled
  | cons line lines ih =>
      cases lines with
      | nil => simp
      | cons next lines =>
          rw [List.intercalate_cons_cons, List.append_assoc, ih (by simp)]
          rfl

theorem splitAtChar_line {separator : Char} {line : List Char} (parted : separator ∉ line)
    (rest : List Char) :
    splitAtChar separator (line ++ separator :: rest) = line :: splitAtChar separator rest := by
  induction line with
  | nil => simp [splitAtChar]
  | cons c line ih =>
      rw [List.mem_cons, not_or] at parted
      rw [List.cons_append, splitAtChar, if_neg (Ne.symm parted.1), ih parted.2]

theorem splitAtChar_lines {separator : Char} {lines : List (List Char)}
    (parted : ∀ line ∈ lines, separator ∉ line) (rest : List Char) :
    splitAtChar separator (lines.flatMap (· ++ [separator]) ++ rest) =
      lines ++ splitAtChar separator rest := by
  induction lines with
  | nil => rfl
  | cons line lines ih =>
      have others := ih fun other listed => parted other (by simp [listed])
      rw [List.flatMap_cons, List.append_assoc, List.append_assoc, List.singleton_append,
        splitAtChar_line (parted line (by simp)), others, List.cons_append]

end Joining

end SchemaClasses.Text

namespace SchemaClasses.Header

open Text

section Entries

/-- A line whose first character that is not blank starts a comment. -/
def StartsComment (line : List Char) : Prop :=
  ∃ margin rest, line = margin ++ '#' :: rest ∧ ∀ c ∈ margin, isBlank c = true

/-- What a line of a header becomes. -/
inductive Commented : List Char → List Char → Prop where
  | kept {line : List Char} (comment : StartsComment line) : Commented line line
  | marked {line : List Char} (other : ¬ StartsComment line)
      (filled : ∃ c ∈ line, isBlank c = false) : Commented line ('#' :: ' ' :: line)
  | blank {line : List Char} (blank : ∀ c ∈ line, isBlank c = true) : Commented line ['#']

theorem dropWhile_head_iff {skipped : Char → Bool} {sign : Char} (plain : skipped sign = false)
    (line : List Char) :
    (line.dropWhile skipped).head? = some sign ↔
      ∃ margin rest, line = margin ++ sign :: rest ∧ ∀ c ∈ margin, skipped c = true := by
  constructor
  · intro starts
    obtain ⟨rest, shape⟩ := List.head?_eq_some_iff.mp starts
    refine ⟨line.takeWhile skipped, rest, ?_, fun c listed => List.mem_takeWhile_imp listed⟩
    rw [← shape, List.takeWhile_append_dropWhile]
  · rintro ⟨margin, rest, rfl, each⟩
    simp [List.dropWhile_append_of_pos each, plain]

theorem isComment_iff (line : List Char) : isComment line = true ↔ StartsComment line := by
  have plain : isBlank '#' = false := by decide
  rw [isComment, decide_eq_true_eq]
  exact dropWhile_head_iff plain line

theorem commentLine_commented (line : List Char) : Commented line (commentLine line) := by
  unfold commentLine
  split
  · rename_i comment
    exact .kept ((isComment_iff line).mp comment)
  · rename_i other
    split
    · rename_i blank
      exact .blank (List.all_eq_true.mp blank)
    · rename_i filled
      exact .marked (mt (isComment_iff line).mpr other) (by simpa using filled)

variable {line entry : List Char}

theorem Commented.startsComment (commented : Commented line entry) : StartsComment entry := by
  cases commented with
  | kept comment => exact comment
  | marked other filled => exact ⟨[], _, rfl, by simp⟩
  | blank blank => exact ⟨[], _, rfl, by simp⟩

theorem Commented.filled (commented : Commented line entry) : entry ≠ [] := by
  obtain ⟨margin, rest, rfl, _⟩ := commented.startsComment
  simp

theorem Commented.inLine (commented : Commented line entry) (within : ∀ c ∈ line, InLine c) :
    ∀ c ∈ entry, InLine c := by
  have sign : InLine '#' := by decide
  have space : InLine ' ' := by decide
  cases commented with
  | kept comment => exact within
  | marked other filled => simpa [sign, space] using within
  | blank blank => simpa using sign

theorem Commented.mem (commented : Commented line entry) :
    ∀ c ∈ entry, c ∈ line ∨ c = '#' ∨ c = ' ' := by
  intro c listed
  cases commented with
  | kept comment => exact .inl listed
  | marked other filled =>
      rcases List.mem_cons.mp listed with sign | later
      · exact .inr (.inl sign)
      · exact (List.mem_cons.mp later).symm.imp_right .inr
  | blank blank => exact .inr (.inl (List.mem_singleton.mp listed))

theorem commentLine_startsComment (comment : StartsComment line) : commentLine line = line := by
  rw [commentLine, if_pos ((isComment_iff line).mpr comment)]

end Entries

section Headers

theorem dropFinalNewlines_parts (text : List Char) :
    ∃ ends, text = dropFinalNewlines text ++ List.replicate ends '\n' ∧
      (dropFinalNewlines text).getLast? ≠ some '\n' := by
  refine ⟨(text.rtakeWhile (· = '\n')).length, ?_, ?_⟩
  · have feeds : text.rtakeWhile (· = '\n') =
        List.replicate (text.rtakeWhile (· = '\n')).length '\n' := by
      rw [List.eq_replicate_iff]
      exact ⟨rfl, fun c listed => by simpa using List.mem_rtakeWhile_imp listed⟩
    rw [← feeds]
    exact List.rdropWhile_append_rtakeWhile.symm
  · intro last
    have filled : dropFinalNewlines text ≠ [] := by
      intro empty
      simp [empty] at last
    have other := List.rdropWhile_last_not (· = '\n') text filled
    rw [List.getLast?_eq_some_getLast filled, Option.some.injEq] at last
    exact other (decide_eq_true last)

theorem dropFinalNewlines_eq_self {text : List Char} (last : text.getLast? ≠ some '\n') :
    dropFinalNewlines text = text := by
  apply List.rdropWhile_eq_self_iff.mpr
  intro filled feed
  rw [List.getLast?_eq_some_getLast filled] at last
  exact last (congrArg some (by simpa using feed))

theorem commentLines_chars (header : String) :
    (commentLines header).map String.toList =
      (allLines (dropFinalNewlines header.toList)).map commentLine := by
  simp [commentLines, Function.comp_def]

theorem commentLines_entry {header entry : String} (listed : entry ∈ commentLines header) :
    StartsComment entry.toList ∧ entry.toList ≠ [] ∧ ∀ c ∈ entry.toList, InLine c := by
  obtain ⟨line, inside, rfl⟩ := List.mem_map.mp listed
  rw [String.toList_ofList]
  have commented := commentLine_commented line
  exact ⟨commented.startsComment, commented.filled,
    commented.inLine ((allLines_splits _).inLine line inside)⟩

theorem mem_commentLines {header entry : String} {c : Char} (listed : entry ∈ commentLines header)
    (inside : c ∈ entry.toList) : c ∈ header.toList ∨ c = '#' ∨ c = ' ' := by
  obtain ⟨line, within, rfl⟩ := List.mem_map.mp listed
  rw [String.toList_ofList] at inside
  refine ((commentLine_commented line).mem c inside).imp_left fun known => ?_
  have body := (allLines_splits _).mem line within c known
  obtain ⟨ends, whole, _⟩ := dropFinalNewlines_parts header.toList
  rw [whole]
  exact List.mem_append_left _ body

/-- Comment lines are the comment lines of the header that they make up. -/
theorem commentLines_fixed (header : String) :
    commentLines ("\n".intercalate (commentLines header)) = commentLines header := by
  have each : ∀ line ∈ (commentLines header).map String.toList,
      line ≠ [] ∧ ∀ c ∈ line, InLine c := by
    intro line listed
    obtain ⟨entry, inside, rfl⟩ := List.mem_map.mp listed
    exact (commentLines_entry inside).2
  have joined : ("\n".intercalate (commentLines header)).toList =
      ['\n'].intercalate ((commentLines header).map String.toList) := by
    simp [String.toList_intercalate]
  -- No entry is empty, so joining them leaves no newline at the end to be dropped.
  rw [commentLines, joined, dropFinalNewlines_eq_self (getLast_join each), allLines_join each,
    List.map_map]
  have kept : ∀ entry ∈ commentLines header,
      String.ofList (commentLine entry.toList) = entry := by
    intro entry listed
    rw [commentLine_startsComment (commentLines_entry listed).1, String.ofList_toList]
  exact (List.map_congr_left kept).trans (List.map_id' _)

theorem addTo_chars {header : String} (filled : commentLines header ≠ []) (content : String) :
    addTo header content = "\n".intercalate (commentLines header) ++ "\n\n" ++ content ∧
    (addTo header content).toList =
      ((commentLines header).map String.toList).flatMap (· ++ ['\n']) ++
        '\n' :: content.toList := by
  have written : addTo header content =
      "\n".intercalate (commentLines header) ++ "\n\n" ++ content := by
    unfold addTo
    split
    · rename_i none
      exact absurd none filled
    · rfl
  refine ⟨written, ?_⟩
  rw [written, ← join_ended (by simpa using filled)]
  simp [String.toList_intercalate]

/-- Each line of a header becomes one comment line, none of which is empty or broken, and a header
of comment lines stays as it is. They stand above the content with one blank line between. -/
theorem commentLines_normal (header : String) :
    (∃ body ends lines, header.toList = body ++ List.replicate ends '\n' ∧
      body.getLast? ≠ some '\n' ∧ Splits body lines ∧
      List.Forall₂ Commented lines ((commentLines header).map String.toList)) ∧
    (∀ entry ∈ commentLines header, entry ≠ "" ∧ ∀ c ∈ entry.toList, InLine c) ∧
    commentLines ("\n".intercalate (commentLines header)) = commentLines header ∧
    ∀ content,
      (commentLines header = [] → addTo header content = content) ∧
      (commentLines header ≠ [] →
        addTo header content = "\n".intercalate (commentLines header) ++ "\n\n" ++ content ∧
        splitAtChar '\n' (addTo header content).toList =
          (commentLines header).map String.toList ++ [] :: splitAtChar '\n' content.toList) := by
  refine ⟨?_, ?_, commentLines_fixed header, fun content => ⟨?_, ?_⟩⟩
  · obtain ⟨ends, whole, last⟩ := dropFinalNewlines_parts header.toList
    refine ⟨_, ends, _, whole, last, allLines_splits _, ?_⟩
    rw [commentLines_chars, List.forall₂_map_right_iff, List.forall₂_same]
    exact fun line _ => commentLine_commented line
  · intro entry listed
    obtain ⟨_, filled, within⟩ := commentLines_entry listed
    exact ⟨fun empty => filled (by rw [empty]; rfl), within⟩
  · intro none
    simp [addTo, none]
  · intro filled
    obtain ⟨written, chars⟩ := addTo_chars filled content
    refine ⟨written, ?_⟩
    rw [chars, splitAtChar_lines]
    · simp [splitAtChar]
    · intro line listed feed
      obtain ⟨entry, inside, rfl⟩ := List.mem_map.mp listed
      exact absurd ((commentLines_entry inside).2.2 _ feed).1 (by decide)

example : commentLines "a\r\n\u2028\u00a0\x0b  # b\n\n" = ["# a", "#", "#", "  # b"] := by
  decide +kernel

end Headers

end SchemaClasses.Header
