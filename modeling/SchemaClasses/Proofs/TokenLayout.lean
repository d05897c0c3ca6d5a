import SchemaClasses.Check.Layout
import SchemaClasses.Literal
import SchemaClasses.Proofs.Names

/-!
Reading written expressions. A piece of text on one line is read as its own tokens,
whatever stands before and after it, provided that a character which ends words and
texts comes next and that there is room for the brackets it opens. Pieces are put
together by the same steps by which the texts are.
-/

namespace SchemaClasses.Check

open Text Schema Naming

def onLine (line : Nat) (marks : List Mark) : List Token :=
  marks.map fun mark => ⟨mark, line⟩

@[simp] theorem onLine_nil (line : Nat) : onLine line [] = [] := rfl

@[simp] theorem onLine_cons (line : Nat) (mark : Mark) (marks : List Mark) :
    onLine line (mark :: marks) = ⟨mark, line⟩ :: onLine line marks := rfl

@[simp] theorem onLine_append (line : Nat) (first second : List Mark) :
    onLine line (first ++ second) = onLine line first ++ onLine line second := by
  simp [onLine]

namespace Layout

section Readings

@[simp] theorem after_nil (reading : Reading) : after [] reading = reading := by
  cases reading <;> rfl

@[simp] theorem after_after (first second : List Token) (reading : Reading) :
    after first (after second reading) = after (first ++ second) reading := by
  cases reading with
  | error flaw => rfl
  | ok result => simp [after, Except.map]

@[simp] theorem after_ok (tokens more : List Token) (layout : Layout) :
    after tokens (.ok (layout, more)) = .ok (layout, tokens ++ more) := rfl

theorem readAll_step {layout next : Layout} {tokens : List Token} {c : Char}
    (step : layout.read c = .ok (next, tokens)) (rest : List Char) :
    layout.readAll (c :: rest) = after tokens (next.readAll rest) := by
  simp only [readAll, step]

/-- The character that ends a token is read once more, as code. -/
theorem readAll_ended {layout ended : Layout} {tokens : List Token} {c : Char}
    (step : layout.read c = readAfter (.ok (ended, tokens)) c) (code : ended.mode = .code)
    (rest : List Char) :
    layout.readAll (c :: rest) = after tokens (ended.readAll (c :: rest)) := by
  have again : ended.read c = ended.readCode c := by simp only [Layout.read, code]
  simp only [readAll, step, again, readAfter]
  cases ended.readCode c with
  | error flaw => rfl
  | ok result =>
      obtain ⟨following, more⟩ := result
      simp

theorem readAll_append {layout middle : Layout} {first : List Char} {tokens : List Token}
    (begun : layout.readAll first = .ok (middle, tokens)) (second : List Char) :
    layout.readAll (first ++ second) = after tokens (middle.readAll second) := by
  induction first generalizing layout tokens with
  | nil =>
      cases begun
      simp
  | cons c rest ih =>
      cases step : layout.read c with
      | error flaw => simp [readAll, step] at begun
      | ok result =>
          obtain ⟨next, found⟩ := result
          rw [readAll_step step] at begun
          rw [List.cons_append, readAll_step step]
          cases later : next.readAll rest with
          | error flaw =>
              rw [later] at begun
              cases begun
          | ok result =>
              obtain ⟨last, more⟩ := result
              rw [later, after_ok] at begun
              cases begun
              rw [ih later, after_after]

end Readings

section Characters

/-! Which characters names are made of, and which ones end a word or a text. -/

theorem isLetter_of_isAlpha {c : Char} (alpha : c.isAlpha = true) : isLetter c = true := by
  have bounds := alpha_range alpha
  simp only [isLetter, inRanges, letterRanges, List.any_cons, Bool.or_eq_true,
    Bool.and_eq_true, decide_eq_true_eq]
  omega

theorem isWordStart_of_isNameStart {c : Char} (start : isNameStart c = true) :
    isWordStart c = true := by
  simp only [isNameStart, isWordStart, Bool.or_eq_true] at start ⊢
  exact Or.inl start

theorem isWordPart_of_isNamePart {c : Char} (part : isNamePart c = true) :
    isWordPart c = true := by
  simp only [isNamePart, isWordPart, Bool.or_eq_true] at part ⊢
  exact Or.inl part

theorem isIdentifier_of_spellsName {text : List Char} (spelled : spellsName text = true) :
    isIdentifier text = true := by
  cases text with
  | nil => simp [spellsName] at spelled
  | cons first rest =>
      simp only [spellsName, Bool.and_eq_true, List.all_eq_true] at spelled
      obtain ⟨start, parts⟩ := spelled
      simp only [isIdentifier, Bool.and_eq_true, List.all_eq_true]
      constructor
      · simp only [isNameStart, Bool.or_eq_true] at start ⊢
        exact start.imp_left isLetter_of_isAlpha
      · intro c member
        have part := parts c member
        simp only [isNamePart, Char.isAlphanum, Bool.or_eq_true] at part ⊢
        rcases part with (alpha | digit) | low
        · exact Or.inl (Or.inl (Or.inl (isLetter_of_isAlpha alpha)))
        · exact Or.inl (Or.inl (Or.inr digit))
        · exact Or.inl (Or.inr low)

theorem not_control_of_isWordStart {c : Char} (start : isWordStart c = true) :
    c ∉ [' ', '\t', '\x0c', '#', '\n', '\\'] := by
  have others : ∀ d ∈ [' ', '\t', '\x0c', '#', '\n', '\\'], isWordStart d = false :=
    of_listed (isWordStart · = false) (by decide)
  intro member
  rw [others c member] at start
  cases start

/-- The characters that stand after words and texts in a module text. -/
def breaks : List Char := ['(', ')', ',', '=', ':', '\x7b', '\x7d', ' ', '\n']

theorem break_facts {c : Char} (stop : c ∈ breaks) :
    isWordPart c = false ∧ isWordStart c = false ∧ c.isDigit = false ∧ c ≠ '.' ∧ c ≠ '\x27' := by
  exact of_listed (fun c => isWordPart c = false ∧ isWordStart c = false ∧ c.isDigit = false ∧
    c ≠ '.' ∧ c ≠ '\x27') (by decide) c stop

end Characters

section Pieces

variable {line : Nat} {brackets : List (Char × Nat)} {indents : List Nat} {limit : Option Nat}

/-- The text is read as the marks where code may stand, if a break comes next. -/
def Lexes (text : List Char) (marks : List Mark) (depth : Nat) : Prop :=
  ∀ (line : Nat) (brackets : List (Char × Nat)) (indents : List Nat) (limit : Option Nat)
    (next : Char) (rest : List Char),
    (∀ most ∈ limit, brackets.length + depth ≤ most) → next ∈ breaks →
    readAll ⟨.code, line, brackets, indents, limit⟩ (text ++ next :: rest) =
      after (onLine line marks) (readAll ⟨.code, line, brackets, indents, limit⟩ (next :: rest))

theorem Lexes.mono {text : List Char} {marks : List Mark} {depth deeper : Nat}
    (lexed : Lexes text marks depth) (le : depth ≤ deeper) : Lexes text marks deeper := by
  intro line brackets indents limit next rest room stop
  apply lexed line brackets indents limit next rest _ stop
  intro most member
  have bound := room most member
  omega

theorem lexes_nil : Lexes [] [] 0 := by
  intro line brackets indents limit next rest room stop
  simp

/-- A piece that starts with a break may follow any piece. -/
theorem Lexes.append {first second : List Char} {marks more : List Mark} {depth : Nat}
    {c : Char} (head : Lexes first marks depth) (tail : Lexes (c :: second) more depth)
    (stop : c ∈ breaks) : Lexes (first ++ c :: second) (marks ++ more) depth := by
  intro line brackets indents limit next rest room ends
  rw [List.append_assoc, List.cons_append, head line brackets indents limit c _ room stop,
    ← List.cons_append, tail line brackets indents limit next rest room ends, after_after,
    onLine_append]

section Words

theorem readAll_word (read parts : List Char) (next : Char) (rest : List Char)
    (allParts : parts.all isWordPart = true) (stop : isWordPart next = false)
    (identifier : isIdentifier (read.reverse ++ parts) = true) :
    readAll ⟨.word read, line, brackets, indents, limit⟩ (parts ++ next :: rest) =
      after [⟨.word (String.ofList (read.reverse ++ parts)), line⟩]
        (readAll ⟨.code, line, brackets, indents, limit⟩ (next :: rest)) := by
  induction parts generalizing read with
  | nil =>
      rw [List.append_nil] at identifier
      have step : Layout.read ⟨.word read, line, brackets, indents, limit⟩ next =
          readAfter (.ok (⟨.code, line, brackets, indents, limit⟩,
            [⟨.word (String.ofList read.reverse), line⟩])) next := by
        simp [Layout.read, stop, endWord, identifier, emit]
      simpa using readAll_ended step rfl rest
  | cons c parts ih =>
      rw [List.all_cons, Bool.and_eq_true] at allParts
      have step : Layout.read ⟨.word read, line, brackets, indents, limit⟩ c =
          .ok (⟨.word (c :: read), line, brackets, indents, limit⟩, []) := by
        simp [Layout.read, allParts.1, goOn]
      have continued : isIdentifier ((c :: read).reverse ++ parts) = true := by
        simpa using identifier
      rw [List.cons_append, readAll_step step, after_nil, ih (c :: read) allParts.2 continued]
      simp

/-- A name where code may stand is one word. -/
theorem lexes_name {name : List Char} (spelled : spellsName name = true) :
    Lexes name [.word (String.ofList name)] 0 := by
  intro line brackets indents limit next rest _ stop
  have identifier := isIdentifier_of_spellsName spelled
  cases name with
  | nil => simp [spellsName] at spelled
  | cons first others =>
      simp only [spellsName, Bool.and_eq_true, List.all_eq_true] at spelled
      obtain ⟨start, parts⟩ := spelled
      have wordStart := isWordStart_of_isNameStart start
      have wordParts : others.all isWordPart = true :=
        List.all_eq_true.mpr fun c member => isWordPart_of_isNamePart (parts c member)
      have step : Layout.read ⟨.code, line, brackets, indents, limit⟩ first =
          .ok (⟨.word [first], line, brackets, indents, limit⟩, []) := by
        have plain := not_control_of_isWordStart wordStart
        simp only [List.mem_cons, List.not_mem_nil, or_false, not_or] at plain
        simp [Layout.read, readCode, plain, wordStart, goOn]
      rw [List.cons_append, readAll_step step, after_nil,
        readAll_word [first] others next rest wordParts (break_facts stop).1 identifier]
      simp

end Words

section Numbers

theorem readAll_number (read digits : List Char) (next : Char) (rest : List Char)
    (allDigits : ∀ c ∈ digits, c.isDigit = true) (stop : next ∈ breaks)
    (number : isNumber (read.reverse ++ digits) = true) :
    readAll ⟨.number read, line, brackets, indents, limit⟩ (digits ++ next :: rest) =
      after [⟨.number, line⟩]
        (readAll ⟨.code, line, brackets, indents, limit⟩ (next :: rest)) := by
  induction digits generalizing read with
  | nil =>
      obtain ⟨_, noWord, noDigit, noPoint, _⟩ := break_facts stop
      rw [List.append_nil] at number
      have step : Layout.read ⟨.number read, line, brackets, indents, limit⟩ next =
          readAfter (.ok (⟨.code, line, brackets, indents, limit⟩, [⟨.number, line⟩])) next := by
        simp [Layout.read, noWord, noDigit, noPoint, endNumber, number, emit]
      exact readAll_ended step rfl rest
  -- What was read is general: it holds the digits in front of these, the last one first.
  | cons c digits ih =>
      have step : Layout.read ⟨.number read, line, brackets, indents, limit⟩ c =
          .ok (⟨.number (c :: read), line, brackets, indents, limit⟩, []) := by
        simp [Layout.read, allDigits c (by simp), goOn]
      have continued : isNumber ((c :: read).reverse ++ digits) = true := by simpa using number
      rw [List.cons_append, readAll_step step, after_nil,
        ih (c :: read) (fun d member => allDigits d (by simp [member])) continued]

theorem not_isWordStart_of_isDigit {c : Char} (digit : c.isDigit = true) :
    isWordStart c = false := by
  have bounds : 48 ≤ c.toNat ∧ c.toNat ≤ 57 := by
    simpa [Char.isDigit, UInt32.le_iff_toNat_le] using digit
  cases start : isWordStart c with
  | false => rfl
  | true =>
      simp only [isWordStart, Bool.or_eq_true, decide_eq_true_eq] at start
      rcases start with (alpha | rfl) | high
      · have letters := alpha_range alpha
        omega
      · exact absurd bounds.2 (by decide)
      · omega

theorem lexes_digits {digits : List Char} (filled : digits ≠ [])
    (allDigits : ∀ c ∈ digits, c.isDigit = true) (number : isNumber digits = true) :
    Lexes digits [.number] 0 := by
  intro line brackets indents limit next rest _ stop
  cases digits with
  | nil => exact absurd rfl filled
  | cons first others =>
      have digit := allDigits first (by simp)
      have plain : ∀ c ∈ [' ', '\t', '\x0c', '#', '\n', '\\'], first ≠ c := by
        have none : ∀ c ∈ [' ', '\t', '\x0c', '#', '\n', '\\'], c.isDigit = false :=
          of_listed (·.isDigit = false) (by decide)
        intro c member same
        rw [same, none c member] at digit
        cases digit
      simp only [List.mem_cons, List.not_mem_nil, or_false, forall_eq_or_imp, forall_eq] at plain
      have step : Layout.read ⟨.code, line, brackets, indents, limit⟩ first =
          .ok (⟨.number [first], line, brackets, indents, limit⟩, []) := by
        simp [Layout.read, readCode, plain, not_isWordStart_of_isDigit digit, digit, goOn]
      rw [List.cons_append, readAll_step step, after_nil,
        readAll_number [first] others next rest (fun c member => allDigits c (by simp [member]))
          stop number]
      rfl

/-- Decimal numerals do not start with a zero, except for zero itself. -/
theorem toDigits_head (n : Nat) (positive : 0 < n) : (Nat.toDigits 10 n).head? ≠ some '0' := by
  induction n using Nat.strongRecOn with
  | ind n ih =>
      by_cases small : n < 10
      · rw [Nat.toDigits_of_lt_base small]
        have digits : ∀ d < 10, 0 < d → Nat.digitChar d ≠ '0' := by decide
        simpa using digits n small positive
      · have shorter := ih (n / 10) (by omega) (by omega)
        rw [Nat.toDigits_of_base_le (by decide) (Nat.not_lt.mp small)]
        cases digits : Nat.toDigits 10 (n / 10) with
        | nil => exact absurd digits Nat.toDigits_ne_nil
        | cons first rest => simpa [digits] using shorter

theorem numeral_digits (n : Nat) : ∀ c ∈ (toString n).toList, c.isDigit = true := by
  rw [Nat.toString_eq_repr, Nat.toList_repr]
  intro c member
  exact Nat.isDigit_of_mem_toDigits (by decide) (by decide) member

theorem lexes_numeral (n : Nat) : Lexes (toString n).toList [.number] 0 := by
  have digits := numeral_digits n
  rw [Nat.toString_eq_repr, Nat.toList_repr] at digits ⊢
  apply lexes_digits Nat.toDigits_ne_nil digits
  cases n with
  | zero => decide
  | succ n => simp [isNumber, toDigits_head (n + 1) (Nat.succ_pos n)]

end Numbers

section Texts

/-! A quoted text is read to its own closing quote: whatever would end it early is
escaped. -/

theorem escapeChar_cases (c : Char) :
    (∃ d, Literal.escapeChar c = ['\\', d] ∧ d ≠ '\n') ∨
      Literal.escapeChar c = [c] ∧ c ≠ '\\' ∧ c ≠ '\x27' ∧ c ≠ '\r' ∧ c ≠ '\n' := by
  unfold Literal.escapeChar
  split
  · exact Or.inl ⟨'\\', rfl, by decide⟩
  split
  · exact Or.inl ⟨'\x27', rfl, by decide⟩
  split
  · exact Or.inl ⟨'r', rfl, by decide⟩
  split
  · exact Or.inl ⟨'n', rfl, by decide⟩
  · rename_i noSlash noQuote noReturn noFeed
    exact Or.inr ⟨rfl, noSlash, noQuote, noReturn, noFeed⟩

theorem readAll_escaped (text read : List Char) (start : Nat) (rest : List Char) :
    readAll ⟨.text '\x27' false 0 false read start, line, brackets, indents, limit⟩
        (text.flatMap Literal.escapeChar ++ rest) =
      readAll ⟨.text '\x27' false 0 false ((text.flatMap Literal.escapeChar).reverse ++ read)
        start, line, brackets, indents, limit⟩ rest := by
  induction text generalizing read with
  | nil => rfl
  | cons c text ih =>
      rw [List.flatMap_cons, List.append_assoc]
      rcases escapeChar_cases c with ⟨d, escaped, noFeed⟩ | ⟨kept, noSlash, noQuote, _, noFeed⟩
      · rw [escaped]
        simpa [readAll, Layout.read, readText, goOn, noFeed] using ih (d :: '\\' :: read)
      · rw [kept]
        simpa [readAll, Layout.read, readText, goOn, noSlash, noQuote, noFeed] using
          ih (c :: read)

theorem escapeChar_head (c : Char) :
    ∃ first others, Literal.escapeChar c = first :: others ∧ first ≠ '\x27' := by
  rcases escapeChar_cases c with ⟨d, escaped, _⟩ | ⟨kept, _, noQuote, _⟩
  · exact ⟨'\\', [d], escaped, by decide⟩
  · exact ⟨c, [], kept, noQuote⟩

/-- A first character other than a quote belongs to the text that the quote opened. -/
theorem readAll_opened {first : Char} (other : first ≠ '\x27') (rest : List Char) :
    readAll ⟨.quotes '\x27' 1 line, line, brackets, indents, limit⟩ (first :: rest) =
      readAll ⟨.text '\x27' false 0 false [] line, line, brackets, indents, limit⟩
        (first :: rest) := by
  by_cases feed : first = '\n' <;>
    simp [readAll, Layout.read, readQuotes, readText, other, feed, goOn, flawed]

theorem lexes_quoted (text : String) :
    Lexes (Literal.quoted text).toList [.text (text.toList.flatMap Literal.escapeChar)] 0 := by
  intro line brackets indents limit next rest _ stop
  have noQuote : next ≠ '\x27' := (break_facts stop).2.2.2.2
  have opened : Layout.read ⟨.code, line, brackets, indents, limit⟩ '\x27' =
      .ok (⟨.quotes '\x27' 1 line, line, brackets, indents, limit⟩, []) := rfl
  simp only [Literal.quoted, String.toList_ofList, List.cons_append, List.append_assoc,
    List.nil_append]
  rw [readAll_step opened, after_nil]
  cases content : text.toList with
  | nil =>
      -- Two quotes are an empty text only when no third one follows.
      have second : Layout.read ⟨.quotes '\x27' 1 line, line, brackets, indents, limit⟩ '\x27' =
          .ok (⟨.quotes '\x27' 2 line, line, brackets, indents, limit⟩, []) := rfl
      have third : Layout.read ⟨.quotes '\x27' 2 line, line, brackets, indents, limit⟩ next =
          readAfter (.ok (⟨.code, line, brackets, indents, limit⟩, [⟨.text [], line⟩])) next := by
        simp [Layout.read, readQuotes, noQuote, endText]
      rw [List.flatMap_nil, List.nil_append, readAll_step second, after_nil]
      exact readAll_ended third rfl rest
  | cons c others =>
      obtain ⟨first, tail, escaped, noQuoteFirst⟩ := escapeChar_head c
      have body : (c :: others).flatMap Literal.escapeChar =
          first :: (tail ++ others.flatMap Literal.escapeChar) := by
        rw [List.flatMap_cons, escaped, List.cons_append]
      have closed : Layout.read ⟨.text '\x27' false 0 false
          ((c :: others).flatMap Literal.escapeChar).reverse line, line, brackets, indents,
            limit⟩ '\x27' =
          .ok (⟨.code, line, brackets, indents, limit⟩,
            [⟨.text ((c :: others).flatMap Literal.escapeChar), line⟩]) := by
        simp [Layout.read, readText, endText]
      rw [body, List.cons_append, readAll_opened noQuoteFirst, ← List.cons_append, ← body,
        readAll_escaped, List.append_nil, readAll_step closed]
      rfl

end Texts

section Signs

/-! Signs, spaces and brackets around pieces. -/

theorem lexes_sign {c : Char} (sign : c ∈ [',', '=', ':']) {text : List Char}
    {marks : List Mark} {depth : Nat} (tail : Lexes text marks depth) :
    Lexes (c :: text) (.sign c :: marks) depth := by
  intro line brackets indents limit next rest room stop
  have step : Layout.read ⟨.code, line, brackets, indents, limit⟩ c =
      .ok (⟨.code, line, brackets, indents, limit⟩, [⟨.sign c, line⟩]) := by
    simp only [List.mem_cons, List.not_mem_nil, or_false] at sign
    rcases sign with rfl | rfl | rfl <;> rfl
  rw [List.cons_append, readAll_step step, tail line brackets indents limit next rest room stop,
    after_after]
  rfl

theorem lexes_space {text : List Char} {marks : List Mark} {depth : Nat}
    (tail : Lexes text marks depth) : Lexes (' ' :: text) marks depth := by
  intro line brackets indents limit next rest room stop
  have step : Layout.read ⟨.code, line, brackets, indents, limit⟩ ' ' =
      .ok (⟨.code, line, brackets, indents, limit⟩, []) := rfl
  rw [List.cons_append, readAll_step step, after_nil,
    tail line brackets indents limit next rest room stop]

theorem lexes_enclosed (opener closer : Char)
    (pair : (opener, closer) ∈ [('(', ')'), ('\x7b', '\x7d')]) {text : List Char}
    {marks : List Mark} {depth : Nat} (inside : Lexes text marks depth) :
    Lexes (opener :: (text ++ [closer])) (.sign opener :: (marks ++ [.sign closer]))
      (depth + 1) := by
  intro line brackets indents limit next rest room stop
  have free : limit.any (fun most => decide (most ≤ brackets.length)) = false := by
    cases limit with
    | none => rfl
    | some most =>
        have bound := room most rfl
        simp only [Option.any_some, decide_eq_false_iff_not]
        omega
  have opening : Layout.read ⟨.code, line, brackets, indents, limit⟩ opener =
      .ok (⟨.code, line, (opener, line) :: brackets, indents, limit⟩,
        [⟨.sign opener, line⟩]) := by
    simp only [List.mem_cons, Prod.mk.injEq, List.not_mem_nil, or_false] at pair
    rcases pair with ⟨rfl, rfl⟩ | ⟨rfl, rfl⟩ <;>
      simp [Layout.read, readCode, isWordStart, isOpener, openBracket, free, emit]
  have closing : Layout.read ⟨.code, line, (opener, line) :: brackets, indents, limit⟩ closer =
      .ok (⟨.code, line, brackets, indents, limit⟩, [⟨.sign closer, line⟩]) := by
    simp only [List.mem_cons, Prod.mk.injEq, List.not_mem_nil, or_false] at pair
    rcases pair with ⟨rfl, rfl⟩ | ⟨rfl, rfl⟩ <;> rfl
  have closerStops : closer ∈ breaks := by
    simp only [List.mem_cons, Prod.mk.injEq, List.not_mem_nil, or_false] at pair
    rcases pair with ⟨rfl, rfl⟩ | ⟨rfl, rfl⟩ <;> decide
  have roomInside : ∀ most ∈ limit, ((opener, line) :: brackets).length + depth ≤ most := by
    intro most member
    have bound := room most member
    simp only [List.length_cons]
    omega
  have shape : opener :: (text ++ [closer]) ++ next :: rest =
      opener :: (text ++ closer :: next :: rest) := by simp
  rw [shape, readAll_step opening,
    inside line ((opener, line) :: brackets) indents limit closer _ roomInside closerStops,
    readAll_step closing]
  simp

/-- Pieces with commas between them. -/
theorem lexes_joined (pieces : List (List Char × List Mark)) {depth : Nat}
    (each : ∀ piece ∈ pieces, Lexes piece.1 piece.2 depth) :
    Lexes ([',', ' '].intercalate (pieces.map Prod.fst))
      ([.sign ','].intercalate (pieces.map Prod.snd)) depth := by
  induction pieces with
  | nil => exact lexes_nil.mono (Nat.zero_le depth)
  | cons piece rest ih =>
      have first := each piece (by simp)
      have others := ih fun other member => each other (by simp [member])
      cases rest with
      | nil => simpa using first
      | cons second rest =>
          simp only [List.map_cons, List.intercalate_cons_cons] at others ⊢
          have tail := lexes_sign (c := ',') (by simp) (lexes_space others)
          simpa using first.append tail (by decide)

end Signs

end Pieces

end Layout

section Marks

/-! How the written forms are spelled in marks. -/

open Layout

def joined (pieces : List (List Mark)) : List Mark :=
  [.sign ','].intercalate pieces

def keywordMarks (keyword : String × List Mark) : List Mark :=
  .word keyword.1 :: .sign '=' :: keyword.2

def callMarks (name : String) (arguments : List (List Mark)) : List Mark :=
  .word name :: .sign '(' :: (joined arguments ++ [.sign ')'])

def entryMarks (entry : List Char × List Mark) : List Mark :=
  .text entry.1 :: .sign ':' :: entry.2

def mappingMarks (entries : List (List Char × List Mark)) : List Mark :=
  .sign '\x7b' :: (joined (entries.map entryMarks) ++ [.sign '\x7d'])

/-- A tuple of one name keeps its comma. -/
def tupleMarks (names : List String) : List Mark :=
  .sign '(' :: (joined (names.map fun name => [.word name]) ++
    (if names.length = 1 then [.sign ','] else []) ++ [.sign ')'])

theorem intercalate_cons {α : Type} (separator first : List α) (others : List (List α)) :
    separator.intercalate (first :: others) = first ++ others.flatMap (separator ++ ·) := by
  induction others generalizing first with
  | nil => simp
  | cons second others ih =>
      rw [List.intercalate_cons_cons, ih second]
      simp

theorem mem_intercalate {α : Type} {item : α} {separator : List α} {pieces : List (List α)}
    (member : item ∈ separator.intercalate pieces) :
    item ∈ separator ∨ ∃ piece ∈ pieces, item ∈ piece := by
  cases pieces with
  | nil => simp at member
  | cons first others =>
      rw [intercalate_cons, List.mem_append, List.mem_flatMap] at member
      rcases member with inside | ⟨piece, listed, later⟩
      · exact .inr ⟨first, by simp, inside⟩
      · rcases List.mem_append.mp later with between | inside
        · exact .inl between
        · exact .inr ⟨piece, by simp [listed], inside⟩

theorem joined_cons (first : List Mark) (others : List (List Mark)) :
    joined (first :: others) = first ++ others.flatMap (.sign ',' :: ·) :=
  intercalate_cons [Mark.sign ','] first others

theorem lexes_word {name : String} {spelling : List Char} (known : name.toList = spelling)
    (spelled : spellsName spelling = true) : Lexes spelling [.word name] 0 := by
  subst known
  simpa using lexes_name spelled

theorem lexes_keyword {name : String} {value : List Char} {marks : List Mark} {depth : Nat}
    (spelled : spellsName name.toList = true) (lexed : Lexes value marks depth) :
    Lexes (name.toList ++ '=' :: value) (keywordMarks (name, marks)) depth :=
  ((lexes_word rfl spelled).mono (Nat.zero_le depth)).append (lexes_sign (by simp) lexed)
    (by decide)

theorem lexes_call {name : String} (spelled : spellsName name.toList = true)
    (pieces : List (List Char × List Mark)) {depth : Nat}
    (each : ∀ piece ∈ pieces, Lexes piece.1 piece.2 depth) :
    Lexes (name.toList ++ '(' :: ([',', ' '].intercalate (pieces.map Prod.fst) ++ [')']))
      (callMarks name (pieces.map Prod.snd)) (depth + 1) :=
  ((lexes_word rfl spelled).mono (Nat.zero_le (depth + 1))).append
    (lexes_enclosed '(' ')' (by simp) (lexes_joined pieces each)) (by decide)

theorem lexes_entry (key : String) {value : List Char} {marks : List Mark} {depth : Nat}
    (lexed : Lexes value marks depth) :
    Lexes ((Literal.quoted key).toList ++ ':' :: ' ' :: value)
      (entryMarks (key.toList.flatMap Literal.escapeChar, marks)) depth :=
  ((lexes_quoted key).mono (Nat.zero_le depth)).append
    (lexes_sign (by simp) (lexes_space lexed)) (by decide)

end Marks

section Values

open Layout

/-- The marks of a value that stands on one line, however deep its brackets are. -/
def valueMarks (value : String) : Option (List Mark) :=
  match Layout.readAll { mode := .code, limit := none } (value.toList ++ ['\n']) with
  | .ok (_, tokens) => some (tokens.map Token.mark).dropLast
  | .error _ => none

theorem valueMarks_eq {value : String} {marks : List Mark} {depth : Nat}
    (lexed : Lexes value.toList marks depth) : valueMarks value = some marks := by
  have read := lexed 1 [] [] none '\n' [] (by simp) (by decide)
  have ended : Layout.readAll ⟨.code, 1, [], [], none⟩ ['\n'] =
      .ok (⟨.margin 0, 2, [], [], none⟩, [⟨.newline, 1⟩]) := rfl
  rw [ended, after_ok] at read
  simp [valueMarks, read, onLine, Function.comp_def]

end Values

end SchemaClasses.Check
