import SchemaClasses.Proofs.LineEnds
import SchemaClasses.Sdl.Tokens

/-!
The tokens of a text whose line ends have been unified. Every lexeme and every position is
the same as before, and a fault stands at the same place. Only what its message shows of a
broken escape or number may differ, where a line end stands in it.
-/

namespace SchemaClasses.Sdl

open Schema Text

section Matching

/-- Both succeed, with results that are related, or both fail, at the same place. -/
inductive Matching {α β : Type} (related : α → β → Prop) :
    Except Fault α → Except Fault β → Prop where
  | ok {first : α} {second : β} (same : related first second) :
      Matching related (.ok first) (.ok second)
  | error {first second : Fault} (place : first.position = second.position) :
      Matching related (.error first) (.error second)

namespace Matching

variable {α β γ δ : Type} {related : α → β → Prop} {later : γ → δ → Prop}
  {first : Except Fault α} {second : Except Fault β}

theorem bind {next : α → Except Fault γ} {other : β → Except Fault δ}
    (start : Matching related first second)
    (rest : ∀ value result, related value result → Matching later (next value) (other result)) :
    Matching later (first >>= next) (second >>= other) := by
  cases start with
  | ok same => exact rest _ _ same
  | error place => exact .error place

theorem map {f : α → γ} {g : β → δ} (start : Matching related first second)
    (rest : ∀ value result, related value result → later (f value) (g result)) :
    Matching later (first.map f) (second.map g) := by
  cases start with
  | ok same => exact .ok (rest _ _ same)
  | error place => exact .error place

theorem toOption {first second : Except Fault α} (same : Matching Eq first second) :
    first.toOption = second.toOption := by
  cases same with
  | ok same => rw [same]
  | error => rfl

end Matching

/-- Both sizes are the same, and no carriage return stands within that size. -/
def Spans (text : List Char) (size other : Nat) : Prop :=
  other = size ∧ '\r' ∉ text.take size

/-- The same value is read from characters that hold no carriage return. -/
def Takes {α : Type} (text : List Char) (first second : α × Nat) : Prop :=
  second = first ∧ '\r' ∉ text.take first.2

theorem quiet_cons {c : Char} {text : List Char} {size : Nat} (other : c ≠ '\r')
    (quiet : '\r' ∉ text.take size) : '\r' ∉ (c :: text).take (size + 1) := by
  rw [List.take_succ_cons, List.mem_cons, not_or]
  exact ⟨Ne.symm other, quiet⟩

theorem quiet_add {text : List Char} {size more : Nat} (quiet : '\r' ∉ text.take size)
    (later : '\r' ∉ (text.drop size).take more) : '\r' ∉ text.take (size + more) := by
  rw [List.take_add, List.mem_append]
  rintro (early | late)
  · exact quiet early
  · exact later late

end Matching

namespace Numeral

section Numbers

theorem digits_unify (text : List Char) (position : Position) :
    Matching (Spans text) (digits text position) (digits (unifyNewlines text) position) := by
  cases text with
  | nil => exact .error rfl
  | cons c rest =>
      by_cases isReturn : c = '\r'
      · obtain ⟨tail, unified⟩ := unifyNewlines_return_cons rest
        rw [isReturn, unified]
        exact .error rfl
      · have run : (unifyNewlines (c :: rest)).takeWhile Char.isDigit =
            (c :: rest).takeWhile Char.isDigit := unifyNewlines_takeWhile rfl rfl _
        rw [unifyNewlines_other isReturn] at run ⊢
        by_cases digit : c.isDigit = true
        · simp only [digits, digit, if_true, run]
          exact .ok ⟨rfl, quiet_takeWhile rfl _⟩
        · simp only [digits, digit]
          exact .error rfl

theorem counted {c : Char} {rest : List Char} {first second : Except Fault Nat} (other : c ≠ '\r')
    (same : Matching (Spans rest) first second) :
    Matching (Spans (c :: rest)) (first.map (· + 1)) (second.map (· + 1)) :=
  same.map fun _ _ ⟨equal, quiet⟩ => ⟨congrArg (· + 1) equal, quiet_cons other quiet⟩

theorem whole_other {text : List Char} (noZero : text.head? ≠ some '0') (position : Position) :
    whole text position = digits text position := by
  unfold whole
  split
  · exact absurd rfl noZero
  · exact absurd rfl noZero
  · rfl

theorem whole_unify (text : List Char) (position : Position) :
    Matching (Spans text) (whole text position) (whole (unifyNewlines text) position) := by
  rcases unifyNewlines_starts text (c := '0') (by decide) (by decide) with
    ⟨rest, rfl, unified⟩ | ⟨noZero, stillNone⟩
  · rw [unified]
    cases rest with
    | nil => exact .ok ⟨rfl, by decide⟩
    | cons c rest =>
        by_cases isReturn : c = '\r'
        · obtain ⟨tail, same⟩ := unifyNewlines_return_cons rest
          rw [isReturn, same]
          exact .ok ⟨rfl, by simp⟩
        · rw [unifyNewlines_other isReturn]
          by_cases digit : c.isDigit = true
          · simp only [whole, digit]
            exact .error rfl
          · simp only [whole, digit]
            exact .ok ⟨rfl, by simp⟩
  · rw [whole_other noZero, whole_other stillNone]
    exact digits_unify text position

theorem fraction_other {text : List Char} (noPoint : text.head? ≠ some '.')
    (position : Position) : fraction text position = .ok 0 := by
  unfold fraction
  split
  · exact absurd rfl noPoint
  · rfl

theorem fraction_unify (text : List Char) (position : Position) :
    Matching (Spans text) (fraction text position) (fraction (unifyNewlines text) position) := by
  rcases unifyNewlines_starts text (c := '.') (by decide) (by decide) with
    ⟨rest, rfl, unified⟩ | ⟨noPoint, stillNone⟩
  · rw [unified]
    exact counted (by decide) (digits_unify rest _)
  · rw [fraction_other noPoint, fraction_other stillNone]
    exact .ok ⟨rfl, by simp⟩

theorem signedDigits_other {text : List Char} (noPlus : text.head? ≠ some '+')
    (noMinus : text.head? ≠ some '-') (position : Position) :
    signedDigits text position = digits text position := by
  unfold signedDigits
  split
  · exact absurd rfl noPlus
  · exact absurd rfl noMinus
  · rfl

theorem signedDigits_unify (text : List Char) (position : Position) :
    Matching (Spans text) (signedDigits text position)
      (signedDigits (unifyNewlines text) position) := by
  rcases unifyNewlines_starts text (c := '+') (by decide) (by decide) with
    ⟨rest, rfl, unified⟩ | ⟨noPlus, stillNoPlus⟩
  · rw [unified]
    exact counted (by decide) (digits_unify rest _)
  rcases unifyNewlines_starts text (c := '-') (by decide) (by decide) with
    ⟨rest, rfl, unified⟩ | ⟨noMinus, stillNoMinus⟩
  · rw [unified]
    exact counted (by decide) (digits_unify rest _)
  · rw [signedDigits_other noPlus noMinus, signedDigits_other stillNoPlus stillNoMinus]
    exact digits_unify text position

theorem exponent_other {text : List Char} (noSmall : text.head? ≠ some 'e')
    (noCapital : text.head? ≠ some 'E') (position : Position) :
    exponent text position = .ok 0 := by
  unfold exponent
  split
  · exact absurd rfl noSmall
  · exact absurd rfl noCapital
  · rfl

theorem exponent_unify (text : List Char) (position : Position) :
    Matching (Spans text) (exponent text position) (exponent (unifyNewlines text) position) := by
  rcases unifyNewlines_starts text (c := 'e') (by decide) (by decide) with
    ⟨rest, rfl, unified⟩ | ⟨noSmall, stillNoSmall⟩
  · rw [unified]
    exact counted (by decide) (signedDigits_unify rest _)
  rcases unifyNewlines_starts text (c := 'E') (by decide) (by decide) with
    ⟨rest, rfl, unified⟩ | ⟨noCapital, stillNoCapital⟩
  · rw [unified]
    exact counted (by decide) (signedDigits_unify rest _)
  · rw [exponent_other noSmall noCapital, exponent_other stillNoSmall stillNoCapital]
    exact .ok ⟨rfl, by simp⟩

theorem ending_unify (text : List Char) (position : Position) :
    Matching Eq (ending text position) (ending (unifyNewlines text) position) := by
  cases text with
  | nil => exact .ok rfl
  | cons c rest =>
      by_cases isReturn : c = '\r'
      · obtain ⟨tail, unified⟩ := unifyNewlines_return_cons rest
        rw [isReturn, unified]
        exact .ok rfl
      · rw [unifyNewlines_other isReturn, ending, ending]
        split
        · exact .error rfl
        · exact .ok rfl

theorem sign_unify (text : List Char) :
    (if (unifyNewlines text).head? = some '-' then 1 else 0) =
        (if text.head? = some '-' then 1 else 0) ∧
      '\r' ∉ text.take (if text.head? = some '-' then 1 else 0) := by
  rcases unifyNewlines_starts text (c := '-') (by decide) (by decide) with
    ⟨rest, rfl, unified⟩ | ⟨noMinus, stillNoMinus⟩
  · simp [unified]
  · simp [noMinus, stillNoMinus]

theorem read_unify (text : List Char) (position : Position) :
    Matching (Takes text) (read text position) (read (unifyNewlines text) position) := by
  obtain ⟨sameSign, quietSign⟩ := sign_unify text
  simp only [read, sameSign]
  generalize (if text.head? = some '-' then 1 else 0) = signSize at quietSign
  rw [unifyNewlines_drop quietSign]
  refine (whole_unify _ _).bind fun wholeSize _ spans => ?_
  obtain ⟨rfl, quietWhole⟩ := spans
  have toWhole := quiet_add quietSign quietWhole
  rw [unifyNewlines_drop toWhole]
  refine (fraction_unify _ _).bind fun fractionSize _ spans => ?_
  obtain ⟨rfl, quietFraction⟩ := spans
  have toFraction := quiet_add toWhole quietFraction
  rw [unifyNewlines_drop toFraction]
  refine (exponent_unify _ _).bind fun exponentSize _ spans => ?_
  obtain ⟨rfl, quietExponent⟩ := spans
  have toExponent := quiet_add toFraction quietExponent
  rw [unifyNewlines_drop toExponent, unifyNewlines_take toExponent]
  exact (ending_unify _ _).bind fun _ _ _ => .ok ⟨rfl, toExponent⟩

end Numbers

end Numeral

namespace Quoted

section Escapes

/-- What is read stands in the first characters, none of which ends a line. -/
def ReadsPlain {α : Type} (read : List Char → Option α) (size : Nat) : Prop :=
  ∀ text value, read text = some value → ∃ word rest, text = word ++ rest ∧ word.length = size ∧
    (∀ c ∈ word, c ≠ '\r' ∧ c ≠ '\n') ∧ ∀ more, read (word ++ more) = some value

namespace ReadsPlain

variable {α : Type} {read : List Char → Option α} {size : Nat}

theorem quiet (plain : ReadsPlain read size) {text : List Char} {value : α}
    (found : read text = some value) : '\r' ∉ text.take size := by
  obtain ⟨word, rest, rfl, rfl, noEnds, _⟩ := plain text value found
  rw [List.take_left]
  exact fun listed => (noEnds _ listed).1 rfl

theorem unify (plain : ReadsPlain read size) (text : List Char) :
    read (unifyNewlines text) = read text := by
  ext value
  constructor
  · intro found
    obtain ⟨word, rest, same, _, noEnds, reads⟩ := plain _ value found
    obtain ⟨more, rfl⟩ := (unifyNewlines_startsWith noEnds text).mp ⟨rest, same.symm⟩
    exact reads more
  · intro found
    obtain ⟨word, rest, same, _, noEnds, reads⟩ := plain _ value found
    obtain ⟨more, unified⟩ := (unifyNewlines_startsWith noEnds text).mpr ⟨rest, same.symm⟩
    rw [← unified]
    exact reads more

end ReadsPlain

theorem plain_of_hexValue {c : Char} {digit : Nat} (hex : hexValue c = some digit) :
    c ≠ '\r' ∧ c ≠ '\n' := by
  constructor
  · rintro rfl
    cases hex
  · rintro rfl
    cases hex

theorem fourDigits_plain : ReadsPlain fourDigits 4 := by
  intro text value found
  match text with
  | [] | [_] | [_, _] | [_, _, _] => cases found
  | a :: b :: c :: d :: rest =>
      refine ⟨[a, b, c, d], rest, rfl, rfl, ?_, fun _ => found⟩
      simp only [fourDigits, Option.bind_eq_bind, Option.bind_eq_some_iff] at found
      obtain ⟨_, first, _, second, _, third, _, fourth, _⟩ := found
      simp only [List.mem_cons, List.not_mem_nil, or_false, forall_eq_or_imp, forall_eq]
      exact ⟨plain_of_hexValue first, plain_of_hexValue second, plain_of_hexValue third,
        plain_of_hexValue fourth⟩

theorem lowHalf_plain : ReadsPlain lowHalf 6 := by
  intro text value found
  unfold lowHalf at found
  split at found
  · rename_i digits
    obtain ⟨halved, low⟩ := Option.filter_eq_some_iff.mp found
    obtain ⟨word, rest, rfl, size, noEnds, reads⟩ := fourDigits_plain digits value halved
    refine ⟨'\\' :: 'u' :: word, rest, rfl, congrArg (· + 2) size, ?_, ?_⟩
    · simpa using noEnds
    · intro more
      exact Option.filter_eq_some_iff.mpr ⟨reads more, low⟩
  · cases found

theorem fixedEscape_unify (rest : List Char) (position : Position) :
    Matching (Takes ('u' :: rest)) (fixedEscape ('u' :: rest) position)
      (fixedEscape ('u' :: unifyNewlines rest) position) := by
  simp only [fixedEscape, List.drop_succ_cons, List.drop_zero, fourDigits_plain.unify]
  cases digits : fourDigits rest with
  | none => exact .error rfl
  | some point =>
      have quiet := fourDigits_plain.quiet digits
      rw [unifyNewlines_drop quiet, lowHalf_plain.unify]
      simp only
      split
      · exact .ok ⟨rfl, quiet_cons (by decide) quiet⟩
      split
      · cases half : lowHalf (rest.drop 4) with
        | none => exact .error rfl
        | some low =>
            exact .ok ⟨rfl, quiet_cons (by decide) (quiet_add quiet (lowHalf_plain.quiet half))⟩
      · exact .error rfl

theorem bracedDigits_unify (text : List Char) (size point : Nat) :
    bracedDigits (unifyNewlines text) size point = bracedDigits text size point := by
  induction text generalizing size point with
  | nil => rfl
  | cons c rest ih =>
      by_cases isReturn : c = '\r'
      · obtain ⟨tail, unified⟩ := unifyNewlines_return_cons rest
        rw [isReturn, unified]
        rfl
      · simp only [unifyNewlines_other isReturn, bracedDigits, ih]

theorem bracedDigits_quiet {text : List Char} {size point total : Nat} {meaning : Char}
    (done : bracedDigits text size point = .ok (meaning, total)) :
    ∃ more, total = size + more ∧ '\r' ∉ text.take more := by
  induction text generalizing size point with
  | nil => cases done
  | cons c rest ih =>
      rw [bracedDigits] at done
      split at done
      · cases done
      split at done
      · rename_i closing
        split at done
        · cases done
          exact ⟨1, rfl, by simp [closing]⟩
        · cases done
      · cases hex : hexValue c with
        | none => simp [hex] at done
        | some digit =>
            simp only [hex] at done
            obtain ⟨more, rfl, quiet⟩ := ih done
            exact ⟨more + 1, by omega, quiet_cons (plain_of_hexValue hex).1 quiet⟩

theorem escape_fixed {rest : List Char} (noBrace : rest.head? ≠ some '\x7b')
    (position : Position) :
    escape ('u' :: rest) position = fixedEscape ('u' :: rest) position := by
  rw [escape]
  rintro digits rfl
  exact noBrace rfl

theorem escape_letter {c : Char} (noUnicode : c ≠ 'u') (rest : List Char) (position : Position) :
    escape (c :: rest) position =
      (letterEscape c).elim (.error ⟨.unknownEscape ['\\', c], position⟩)
        fun meaning => .ok (meaning, 1) := by
  rw [escape]
  · cases letterEscape c <;> rfl
  · exact fun _ same => absurd same noUnicode
  · exact noUnicode

theorem unicode_unify (rest : List Char) (position : Position) :
    Matching (Takes ('u' :: rest)) (escape ('u' :: rest) position)
      (escape ('u' :: unifyNewlines rest) position) := by
  rcases unifyNewlines_starts rest (c := '\x7b') (by decide) (by decide) with
    ⟨digits, rfl, unified⟩ | ⟨noBrace, stillNone⟩
  · rw [unified]
    simp only [escape, bracedDigits_unify]
    cases braced : bracedDigits digits 2 0 with
    | error size => exact .error rfl
    | ok found =>
        obtain ⟨more, total, quiet⟩ := bracedDigits_quiet braced
        refine .ok ⟨rfl, ?_⟩
        rw [total, Nat.add_comm]
        exact quiet_cons (by decide) (quiet_cons (by decide) quiet)
  · rw [escape_fixed noBrace, escape_fixed stillNone]
    exact fixedEscape_unify rest position

theorem escape_unify (text : List Char) (position : Position) :
    Matching (Takes text) (escape text position) (escape (unifyNewlines text) position) := by
  cases text with
  | nil => exact .error rfl
  | cons c rest =>
      by_cases isReturn : c = '\r'
      · obtain ⟨tail, unified⟩ := unifyNewlines_return_cons rest
        rw [isReturn, unified]
        exact .error rfl
      rw [unifyNewlines_other isReturn]
      by_cases unicode : c = 'u'
      · rw [unicode]
        exact unicode_unify rest position
      · rw [escape_letter unicode, escape_letter unicode]
        cases letterEscape c with
        | none => exact .error rfl
        | some meaning => exact .ok ⟨rfl, quiet_cons isReturn (by simp)⟩

end Escapes

section Strings

theorem read_unify (text : List Char) (position : Position) :
    Matching (Takes text) (read text position) (read (unifyNewlines text) position) := by
  induction text, position using read.induct with
  | case1 position =>
      rw [unifyNewlines, read]
      exact .error rfl
  | case2 position rest =>
      rw [unifyNewlines_other (by decide), read, read]
      exact .ok ⟨rfl, quiet_cons (by decide) (by simp)⟩
  | case3 position rest noQuote ih =>
      rw [unifyNewlines_other (by decide), read, read, if_neg noQuote, if_neg noQuote,
        if_pos rfl, if_pos rfl]
      refine (escape_unify rest position).bind fun escaped result taken => ?_
      obtain ⟨meaning, size⟩ := escaped
      obtain ⟨rfl, quiet⟩ := taken
      simp only [unifyNewlines_drop quiet]
      refine (ih size).bind fun value result taken => ?_
      obtain ⟨rfl, later⟩ := taken
      refine .ok ⟨rfl, ?_⟩
      have whole := quiet_cons (c := '\\') (by decide) (quiet_add quiet later)
      rwa [Nat.add_right_comm] at whole
  | case4 position c rest noQuote noEscape lineEnd =>
      have unterminated (d : Char) (tail : List Char) (ends : d = '\n' ∨ d = '\r') :
          read (d :: tail) position = .error ⟨.unterminatedString, position⟩ := by
        rw [read]
        rcases ends with rfl | rfl <;> rfl
      have ends : c = '\n' ∨ c = '\r' := by simpa using lineEnd
      rw [unterminated c rest ends]
      rcases ends with rfl | rfl
      · rw [unifyNewlines_other (by decide), unterminated _ _ (.inl rfl)]
        exact .error rfl
      · obtain ⟨tail, unified⟩ := unifyNewlines_return_cons rest
        rw [unified, unterminated _ _ (.inl rfl)]
        exact .error rfl
  | case5 position c rest noQuote noEscape noEnd ih =>
      have noReturn : c ≠ '\r' := by
        rintro rfl
        exact noEnd rfl
      rw [unifyNewlines_other noReturn, read, read, if_neg noQuote, if_neg noQuote,
        if_neg noEscape, if_neg noEscape, if_neg noEnd, if_neg noEnd]
      refine ih.bind fun value result taken => ?_
      obtain ⟨rfl, quiet⟩ := taken
      exact .ok ⟨rfl, quiet_cons noReturn quiet⟩

end Strings

end Quoted

namespace BlockText

section Lines

/-- The same lines are read, and what comes after them stays the same. -/
structure SameBlock (text : List Char) (first second : Raw) : Prop where
  lines : second.lines = first.lines
  stop : second.stop = first.stop
  rest : (unifyNewlines text).drop second.size = unifyNewlines (text.drop first.size)

namespace SameBlock

variable {text rest : List Char} {size other : Nat} {first second : Raw}

theorem dropped (same : SameBlock rest first second) (before : text.drop size = rest)
    (after : (unifyNewlines text).drop other = unifyNewlines rest) :
    (unifyNewlines text).drop (second.size + other) =
      unifyNewlines (text.drop (first.size + size)) := by
  rw [Nat.add_comm, ← List.drop_drop, after, same.rest, Nat.add_comm first.size,
    ← List.drop_drop, before]

theorem extend (same : SameBlock rest first second) (before : text.drop size = rest)
    (after : (unifyNewlines text).drop other = unifyNewlines rest) (characters : List Char) :
    SameBlock text (first.extend characters size) (second.extend characters other) :=
  ⟨congrArg (BlockText.extend characters) same.lines, same.stop, same.dropped before after⟩

theorem breakLine (same : SameBlock rest first second) (before : text.drop size = rest)
    (after : (unifyNewlines text).drop other = unifyNewlines rest) :
    SameBlock text (first.breakLine size) (second.breakLine other) :=
  ⟨congrArg ([] :: ·) same.lines, same.stop, same.dropped before after⟩

end SameBlock

theorem rawLines_unify (text : List Char) (position : Position) :
    Matching (SameBlock text) (rawLines text position)
      (rawLines (unifyNewlines text) position) := by
  induction text, position using rawLines.induct with
  | case1 position => exact .error rfl
  | case2 tail position =>
      have unified : unifyNewlines ('"' :: '"' :: '"' :: tail) =
          '"' :: '"' :: '"' :: unifyNewlines tail :=
        unifyNewlines_append (show '\r' ∉ ['"', '"', '"'] by decide) tail
      rw [unified]
      exact .ok ⟨rfl, rfl, congrArg (List.drop 3) unified⟩
  | case3 rest position ih =>
      have unified : unifyNewlines ('\\' :: '"' :: '"' :: '"' :: rest) =
          '\\' :: '"' :: '"' :: '"' :: unifyNewlines rest :=
        unifyNewlines_append (show '\r' ∉ ['\\', '"', '"', '"'] by decide) rest
      rw [unified]
      exact ih.map fun _ _ same => same.extend rfl (congrArg (List.drop 4) unified) _
  | case4 rest position ih =>
      exact ih.map fun _ _ same => same.breakLine rfl rfl
  | case5 rest position noPair ih =>
      have noFeed : rest.head? ≠ some '\n' := by
        intro starts
        obtain ⟨tail, rfl⟩ := List.head?_eq_some_iff.mp starts
        exact noPair tail rfl
      have unified := unifyNewlines_return noFeed
      rw [unified, rawLines.eq_5 _ _ noPair]
      exact ih.map fun _ _ same => same.breakLine rfl (congrArg (List.drop 1) unified)
  | case6 rest position ih =>
      have unified := unifyNewlines_other (show '\n' ≠ '\r' by decide) rest
      rw [unified]
      exact ih.map fun _ _ same => same.breakLine rfl (congrArg (List.drop 1) unified)
  | case7 c rest position noClose noEscape noPair noReturn noFeed ih =>
      have unified := unifyNewlines_other noReturn rest
      have kept (word : List Char) (plain : ∀ c ∈ word, c ≠ '\r' ∧ c ≠ '\n') (tail : List Char)
          (starts : unifyNewlines rest = word ++ tail) : ∃ more, rest = word ++ more := by
        obtain ⟨more, same⟩ := (unifyNewlines_startsWith plain rest).mp ⟨tail, starts.symm⟩
        exact ⟨more, same.symm⟩
      rw [unified, rawLines.eq_7 _ _ _ noClose noEscape noPair noReturn noFeed, rawLines.eq_7]
      · exact ih.map fun _ _ same => same.extend rfl (congrArg (List.drop 1) unified) _
      · intro tail quote starts
        obtain ⟨more, same⟩ := kept ['"', '"'] (by simp) tail starts
        exact noClose more quote same
      · intro tail backslash starts
        obtain ⟨more, same⟩ := kept ['"', '"', '"'] (by simp) tail starts
        exact noEscape more backslash same
      · exact fun _ isReturn _ => noReturn isReturn
      · exact noReturn
      · exact noFeed

end Lines

end BlockText

section Tokens

/-- The same tokens, up to the same end or to faults at the same place. -/
inductive Tokens.Alike : Tokens → Tokens → Prop where
  | finish (position : Position) : Alike (.finish position) (.finish position)
  | fault {first second : Fault} (place : first.position = second.position) :
      Alike (.fault first) (.fault second)
  | token (lexeme : Lexeme) (position : Position) {first second : Tokens}
      (rest : Alike first second) :
      Alike (.token lexeme position first) (.token lexeme position second)

theorem lineFeed_unify (rest : List Char) :
    unifyNewlines ('\r' :: rest) = '\n' :: unifyNewlines (rest.drop (lineFeedSize rest)) := by
  unfold lineFeedSize
  split
  · rename_i feed
    obtain ⟨tail, rfl⟩ := List.head?_eq_some_iff.mp feed
    rfl
  · rename_i noFeed
    exact unifyNewlines_return noFeed

theorem pair_unify {c : Char} (plain : c ≠ '\r' ∧ c ≠ '\n') (rest : List Char) :
    (unifyNewlines rest).take 2 = [c, c] ↔ rest.take 2 = [c, c] := by
  have word : ∀ d ∈ [c, c], d ≠ '\r' ∧ d ≠ '\n' := by simpa using plain
  exact unifyNewlines_take_eq word rest

theorem commentSize_unify (text : List Char) :
    commentSize (unifyNewlines text) = commentSize text := by
  rw [commentSize, unifyNewlines_takeWhile rfl rfl, commentSize]

/-- What follows on a reading, or its fault. -/
def Tokens.after {α : Type} (reading : Except Fault α) (next : α → Tokens) : Tokens :=
  match reading with
  | .error found => .fault found
  | .ok value => next value

theorem Tokens.Alike.after {α β : Type} {related : α → β → Prop} {first : Except Fault α}
    {second : Except Fault β} {next : α → Tokens} {other : β → Tokens}
    (same : Matching related first second)
    (later : ∀ value result, first = .ok value → related value result →
      Alike (next value) (other result)) :
    Alike (Tokens.after first next) (Tokens.after second other) := by
  cases same with
  | ok same => exact later _ _ rfl same
  | error place => exact .fault place

variable {rest : List Char} {position : Position}

theorem tokensAt_block (triple : rest.take 2 = ['"', '"']) (position : Position) :
    tokensAt ('"' :: rest) position =
      Tokens.after (BlockText.rawLines (rest.drop 2) (position.right 3)) fun raw =>
        .token (.blockString (BlockText.value raw.lines)) position
          (tokensAt ((rest.drop 2).drop raw.size) raw.stop) := by
  rw [tokensAt, if_neg (by decide), if_neg (by decide), if_neg (by decide), if_neg (by decide),
    if_pos rfl, if_pos triple]
  cases BlockText.rawLines (rest.drop 2) (position.right 3) <;> rfl

theorem tokensAt_quoted (single : rest.take 2 ≠ ['"', '"']) (position : Position) :
    tokensAt ('"' :: rest) position =
      Tokens.after (Quoted.read rest (position.right 1)) fun (value, size) =>
        .token (.string (String.ofList value)) position
          (tokensAt (rest.drop size) (position.right (size + 1))) := by
  rw [tokensAt, if_neg (by decide), if_neg (by decide), if_neg (by decide), if_neg (by decide),
    if_pos rfl, if_neg single]
  cases Quoted.read rest (position.right 1) <;> rfl

theorem tokensAt_number {c : Char} (numeric : (c.isDigit || c = '-') = true) (rest : List Char)
    (position : Position) :
    tokensAt (c :: rest) position =
      Tokens.after (Numeral.read (c :: rest) position) fun (number, size) =>
        .token number position (tokensAt (rest.drop (size - 1)) (position.right size)) := by
  have other (d : Char) (never : (d.isDigit || d = '-') = false) : c ≠ d := by
    rintro rfl
    exact Bool.false_ne_true (never.symm.trans numeric)
  have noBlank : ¬ isIgnored c = true := by
    simp [isIgnored, other ' ' rfl, other '\t' rfl, other ',' rfl, other '\ufeff' rfl]
  rw [tokensAt, if_neg noBlank, if_neg (other '\n' rfl), if_neg (other '\r' rfl),
    if_neg (other '#' rfl), if_neg (other '"' rfl), if_pos numeric]
  cases Numeral.read (c :: rest) position <;> rfl

theorem block_unify (triple : rest.take 2 = ['"', '"'])
    (later : ∀ raw, BlockText.rawLines (rest.drop 2) (position.right 3) = .ok raw →
      Tokens.Alike (tokensAt ((rest.drop 2).drop raw.size) raw.stop)
        (tokensAt (unifyNewlines ((rest.drop 2).drop raw.size)) raw.stop)) :
    Tokens.Alike (tokensAt ('"' :: rest) position)
      (tokensAt (unifyNewlines ('"' :: rest)) position) := by
  have quiet : '\r' ∉ rest.take 2 := by simp [triple]
  rw [unifyNewlines_other (by decide), tokensAt_block triple,
    tokensAt_block ((unifyNewlines_take quiet).trans triple), unifyNewlines_drop quiet]
  refine .after (BlockText.rawLines_unify _ _) fun raw other done same => ?_
  rw [same.lines, same.stop, same.rest]
  exact .token _ _ (later raw done)

theorem quoted_unify (single : rest.take 2 ≠ ['"', '"'])
    (later : ∀ value size, Quoted.read rest (position.right 1) = .ok (value, size) →
      Tokens.Alike (tokensAt (rest.drop size) (position.right (size + 1)))
        (tokensAt (unifyNewlines (rest.drop size)) (position.right (size + 1)))) :
    Tokens.Alike (tokensAt ('"' :: rest) position)
      (tokensAt (unifyNewlines ('"' :: rest)) position) := by
  have stillSingle : (unifyNewlines rest).take 2 ≠ ['"', '"'] :=
    mt (pair_unify (by decide) rest).mp single
  rw [unifyNewlines_other (by decide), tokensAt_quoted single, tokensAt_quoted stillSingle]
  refine .after (Quoted.read_unify _ _) fun value _ done taken => ?_
  obtain ⟨value, size⟩ := value
  obtain ⟨rfl, quiet⟩ := taken
  simp only [unifyNewlines_drop quiet]
  exact .token _ _ (later value size done)

theorem number_unify {c : Char} (numeric : (c.isDigit || c = '-') = true)
    (later : ∀ number size, Numeral.read (c :: rest) position = .ok (number, size) →
      Tokens.Alike (tokensAt (rest.drop (size - 1)) (position.right size))
        (tokensAt (unifyNewlines (rest.drop (size - 1))) (position.right size))) :
    Tokens.Alike (tokensAt (c :: rest) position)
      (tokensAt (unifyNewlines (c :: rest)) position) := by
  have noReturn : c ≠ '\r' := by
    rintro rfl
    cases numeric
  have same := Numeral.read_unify (c :: rest) position
  rw [unifyNewlines_other noReturn] at same ⊢
  rw [tokensAt_number numeric, tokensAt_number numeric]
  refine .after same fun value _ done taken => ?_
  obtain ⟨number, size⟩ := value
  obtain ⟨rfl, quiet⟩ := taken
  have quietTail : '\r' ∉ rest.take (size - 1) := by
    cases size with
    | zero => simp
    | succ size =>
        rw [List.take_succ_cons, List.mem_cons, not_or] at quiet
        exact quiet.2
  simp only [unifyNewlines_drop quietTail]
  exact .token _ _ (later number size done)

open Tokens in
/-- By the recursion of the lexer. Each part that it takes is taken from the unified text in
the same way, and the unified rest is left. -/
theorem tokensAt_unify (text : List Char) (position : Position) :
    Alike (tokensAt text position) (tokensAt (unifyNewlines text) position) := by
  induction text, position using tokensAt.induct with
  | case1 position =>
      rw [unifyNewlines, tokensAt]
      exact .finish position
  | case2 position c rest ignored ih =>
      have noReturn : c ≠ '\r' := by
        rintro rfl
        cases ignored
      rw [unifyNewlines_other noReturn, tokensAt, tokensAt, if_pos ignored, if_pos ignored]
      exact ih
  | case3 position rest noBlank ih =>
      rw [unifyNewlines_other (by decide), tokensAt, tokensAt]
      exact ih
  | case4 position rest noBlank noFeed ih =>
      rw [lineFeed_unify, tokensAt, tokensAt]
      exact ih
  | case5 position rest noBlank noFeed noReturn ih =>
      have quiet : '\r' ∉ rest.take (commentSize rest) := quiet_takeWhile rfl rest
      rw [unifyNewlines_other noReturn, tokensAt, tokensAt, commentSize_unify,
        unifyNewlines_drop quiet]
      exact ih
  | case6 position rest triple fault failed noBlank noFeed noReturn noComment =>
      refine block_unify triple fun raw done => ?_
      cases done.symm.trans failed
  | case7 position rest triple raw done noBlank noFeed noReturn noComment ih =>
      refine block_unify triple fun raw again => ?_
      cases again.symm.trans done
      exact ih
  | case8 position rest single fault failed noBlank noFeed noReturn noComment =>
      refine quoted_unify single fun value size done => ?_
      cases done.symm.trans failed
  | case9 position rest single value size done noBlank noFeed noReturn noComment ih =>
      refine quoted_unify single fun value size again => ?_
      cases again.symm.trans done
      exact ih
  | case10 position c rest noBlank noFeed noReturn noComment noQuote numeric fault failed =>
      refine number_unify numeric fun number size done => ?_
      cases done.symm.trans failed
  | case11 position c rest noBlank noFeed noReturn noComment noQuote numeric number size done ih =>
      refine number_unify numeric fun number size again => ?_
      cases again.symm.trans done
      exact ih
  | case12 position c rest noBlank noFeed noReturn noComment noQuote noDigit start size ih =>
      have run : (unifyNewlines rest).takeWhile isNamePart = rest.takeWhile isNamePart :=
        unifyNewlines_takeWhile rfl rfl rest
      have quiet : '\r' ∉ rest.take size := quiet_takeWhile rfl rest
      have word : Name.leading c (unifyNewlines rest) start = Name.leading c rest start := by
        simp only [Name.leading, run]
      rw [unifyNewlines_other noReturn, tokensAt, tokensAt]
      simp only [noBlank, noFeed, noReturn, noComment, noQuote, noDigit, start, if_false, run, word]
      rw [unifyNewlines_drop quiet]
      exact .token _ _ ih
  | case13 position c rest noBlank noFeed noReturn noComment noQuote noDigit noStart spread ih =>
      have point : rest.take 2 = ['.', '.'] := by
        simp only [Bool.and_eq_true, decide_eq_true_eq] at spread
        exact spread.2
      have quiet : '\r' ∉ rest.take 2 := by simp [point]
      rw [unifyNewlines_other noReturn, tokensAt, tokensAt]
      simp only [noBlank, noFeed, noReturn, noComment, noQuote, noDigit, noStart, spread,
        unifyNewlines_take quiet, unifyNewlines_drop quiet, if_true, if_false]
      exact .token _ _ ih
  | case14 position c rest noBlank noFeed noReturn noComment noQuote noDigit noStart noSpread mark
      found ih =>
      have points := pair_unify (show '.' ≠ '\r' ∧ '.' ≠ '\n' by decide) rest
      rw [unifyNewlines_other noReturn, tokensAt, tokensAt]
      simp only [noBlank, noFeed, noReturn, noComment, noQuote, noDigit, noStart, noSpread,
        points, found, if_false]
      exact .token _ _ ih
  | case15 position c rest noBlank noFeed noReturn noComment noQuote noDigit noStart noSpread
      stray =>
      have points := pair_unify (show '.' ≠ '\r' ∧ '.' ≠ '\n' by decide) rest
      rw [unifyNewlines_other noReturn, tokensAt, tokensAt]
      simp only [noBlank, noFeed, noReturn, noComment, noQuote, noDigit, noStart, noSpread,
        points, stray, if_false]
      exact .fault rfl

end Tokens

end SchemaClasses.Sdl
