import SchemaClasses.Proofs.TokenLayout

/-!
Reading whole lines. A line of code gives its tokens between those of its indentation
and the end of the line. A docstring gives one token however many lines it has: no run
of three quotes stands in it unescaped, and a quote at its end is kept apart from the
closing ones.
-/

namespace SchemaClasses.Check.Layout

open Text Schema

section Docstrings

/-- In a long text, after the characters of `read`, the last of which are `run` quotes. -/
def insideLong (layout : Layout) (run : Nat) (read : List Char) (start : Nat) : Layout :=
  { layout with mode := .text '\x27' true run false read start }

def quotesAhead (text : List Char) : Nat :=
  (text.takeWhile (· = '\x27')).length

@[simp] theorem quotesAhead_cons_quote (text : List Char) :
    quotesAhead ('\x27' :: text) = quotesAhead text + 1 := by
  simp [quotesAhead]

theorem read_long_escape (layout : Layout) (run : Nat) (read : List Char) (start : Nat)
    (c : Char) (rest : List Char) (noFeed : c ≠ '\n') :
    readAll (insideLong layout run read start) ('\\' :: c :: rest) =
      readAll (insideLong layout 0 (c :: '\\' :: read) start) rest := by
  simp [insideLong, readAll, Layout.read, readText, goOn, noFeed]

theorem read_long_quote (layout : Layout) (run : Nat) (read : List Char) (start : Nat)
    (rest : List Char) (few : run < 2) :
    readAll (insideLong layout run read start) ('\x27' :: rest) =
      readAll (insideLong layout (run + 1) ('\x27' :: read) start) rest := by
  have notThird : run ≠ 2 := by omega
  simp [insideLong, readAll, Layout.read, readText, goOn, notThird]

theorem read_long_other (layout : Layout) (run : Nat) (read : List Char) (start : Nat)
    (c : Char) (rest : List Char) (noSlash : c ≠ '\\') (noQuote : c ≠ '\x27') :
    ∃ below, readAll (insideLong layout run read start) (c :: rest) =
      readAll (insideLong { layout with line := below } 0 (c :: read) start) rest := by
  by_cases feed : c = '\n'
  · refine ⟨layout.line + 1, ?_⟩
    simp [insideLong, readAll, Layout.read, readText, goOn, feed, nextLine]
  · refine ⟨layout.line, ?_⟩
    simp [insideLong, readAll, Layout.read, readText, goOn, noSlash, noQuote, feed]

/-- The run of quotes before a text in which three are escaped never reaches three: it
is empty, or too short to be completed by the quotes that come next. -/
theorem read_long_escaped (layout : Layout) (text : List Char) (run : Nat) (read : List Char)
    (start : Nat) (rest : List Char) (fits : run = 0 ∨ run + quotesAhead text < 3)
    (seen : run = 0 ∨ read.head? = some '\x27') :
    ∃ run' below,
      readAll (insideLong layout run read start) (Literal.escapeDocstring text ++ rest) =
        readAll (insideLong { layout with line := below } run'
          ((Literal.escapeDocstring text).reverse ++ read) start) rest ∧
      (run' = 0 ∨ ((Literal.escapeDocstring text).reverse ++ read).head? = some '\x27') := by
  induction text using Literal.escapeDocstring.induct generalizing layout run read with
  | case1 => exact ⟨run, layout.line, rfl, seen⟩
  | case2 text ih =>
      obtain ⟨run', below, continued, ended⟩ :=
        ih layout 0 ('\x27' :: '\\' :: '\x27' :: '\\' :: '\x27' :: '\\' :: read)
          (Or.inl rfl) (Or.inl rfl)
      refine ⟨run', below, ?_, ?_⟩
      · simp only [Literal.escapeDocstring, List.cons_append]
        rw [read_long_escape _ _ _ _ _ _ (by decide), read_long_escape _ _ _ _ _ _ (by decide),
          read_long_escape _ _ _ _ _ _ (by decide), continued]
        simp
      · simpa [Literal.escapeDocstring] using ended
  | case3 text ih =>
      obtain ⟨run', below, continued, ended⟩ :=
        ih layout 0 ('\\' :: '\\' :: read) (Or.inl rfl) (Or.inl rfl)
      refine ⟨run', below, ?_, ?_⟩
      · simp only [Literal.escapeDocstring, List.cons_append]
        rw [read_long_escape _ _ _ _ _ _ (by decide), continued]
        simp
      · simpa [Literal.escapeDocstring] using ended
  | case4 c text noTriple noSlash ih =>
      have unchanged := Literal.escapeDocstring.eq_4 c text noTriple noSlash
      by_cases quote : c = '\x27'
      · subst quote
        -- Three quotes in a row would have been escaped.
        have short : quotesAhead text < 2 := by
          match text with
          | [] => simp [quotesAhead]
          | [d] => by_cases same : d = '\x27' <;> simp [quotesAhead, same]
          | d :: e :: others =>
              by_cases first : d = '\x27'
              · by_cases second : e = '\x27'
                · exact absurd (by rw [first, second]) (noTriple others rfl)
                · simp [quotesAhead, first, second]
              · simp [quotesAhead, first]
        rw [quotesAhead_cons_quote] at fits
        obtain ⟨run', below, continued, ended⟩ :=
          ih layout (run + 1) ('\x27' :: read) (Or.inr (by omega)) (Or.inr rfl)
        refine ⟨run', below, ?_, ?_⟩
        · rw [unchanged, List.cons_append, read_long_quote _ _ _ _ _ (by omega), continued]
          simp
        · rw [unchanged]
          simpa using ended
      · obtain ⟨below, step⟩ := read_long_other layout run read start c
          (Literal.escapeDocstring text ++ rest) (fun same => noSlash same) quote
        obtain ⟨run', lower, continued, ended⟩ :=
          ih { layout with line := below } 0 (c :: read) (Or.inl rfl) (Or.inl rfl)
        refine ⟨run', lower, ?_, ?_⟩
        · rw [unchanged, List.cons_append, step, continued]
          simp
        · rw [unchanged]
          simpa using ended

/-- What stands between the triple quotes of a docstring. -/
def docstringBody (text : List Char) : List Char :=
  Literal.padQuote (Literal.escapeDocstring text)

theorem docstring_toList (text : String) :
    (Literal.docstring text).toList = docstringBody text.toList := by
  simp [Literal.docstring, docstringBody]

/-- After a whole docstring no quote of a closing run has been read. -/
theorem read_long_body (layout : Layout) (text : List Char) (start : Nat) (rest : List Char) :
    ∃ below, readAll (insideLong layout 0 [] start) (docstringBody text ++ rest) =
      readAll (insideLong { layout with line := below } 0 (docstringBody text).reverse start)
        rest := by
  unfold docstringBody Literal.padQuote
  split
  · rw [List.append_assoc]
    obtain ⟨run, below, continued, _⟩ := read_long_escaped layout text 0 [] start ([' '] ++ rest)
      (Or.inl rfl) (Or.inl rfl)
    obtain ⟨lower, step⟩ := read_long_other { layout with line := below } run
      ((Literal.escapeDocstring text).reverse ++ []) start ' ' rest (by decide) (by decide)
    refine ⟨lower, ?_⟩
    rw [continued, List.singleton_append, step]
    simp
  · rename_i noQuote
    obtain ⟨run, below, continued, ended⟩ := read_long_escaped layout text 0 [] start rest
      (Or.inl rfl) (Or.inl rfl)
    rw [List.append_nil, List.head?_reverse] at ended
    have fresh : run = 0 := ended.resolve_right noQuote
    refine ⟨below, ?_⟩
    rw [continued, fresh, List.append_nil]

/-- The first two closing quotes say nothing yet, and the third one ends the text. -/
theorem read_long_closing (layout : Layout) (body : List Char) (start : Nat) (rest : List Char) :
    readAll (insideLong layout 0 body.reverse start) ('\x27' :: '\x27' :: '\x27' :: rest) =
      after [⟨.text body, start⟩] (readAll { layout with mode := .code } rest) := by
  have third : Layout.read (insideLong layout 2 ('\x27' :: '\x27' :: body.reverse) start) '\x27' =
      .ok ({ layout with mode := .code }, [⟨.text body, start⟩]) := by
    simp [insideLong, Layout.read, readText, endText]
  rw [read_long_quote _ _ _ _ _ (by decide), read_long_quote _ _ _ _ _ (by decide),
    readAll_step third]

end Docstrings

section Lines

/-! From the start of one line to the start of the next. -/

def atMargin (line : Nat) (indents : List Nat) : Layout :=
  { line, indents }

/-- Code that starts at the width leaves the blocks `inner` open, after the given marks. -/
def Shifts (indents : List Nat) (width : Nat) (inner : List Nat) (marks : List Mark) : Prop :=
  ∀ layout : Layout, layout.indents = indents →
    layout.indentTo width =
      .ok ({ layout with mode := .code, indents := inner }, onLine layout.line marks)

theorem shifts_same {indents : List Nat} {width : Nat} (same : indents.head?.getD 0 = width) :
    Shifts indents width indents [] := by
  intro layout known
  subst known
  simp [indentTo, same, goOn]

theorem shifts_deeper {indents : List Nat} {width : Nat} (deeper : indents.head?.getD 0 < width) :
    Shifts indents width (width :: indents) [.indent] := by
  intro layout known
  subst known
  have differs : width ≠ layout.indents.head?.getD 0 := by omega
  simp [indentTo, differs, deeper, emit]

/-- Every block that starts further in ends. -/
theorem shifts_back {indents inner : List Nat} {width count : Nat}
    (back : width < indents.head?.getD 0)
    (left : indents.dropWhile (width < ·) = inner) (lands : inner.head?.getD 0 = width)
    (ended : indents.length - inner.length = count) :
    Shifts indents width inner (List.replicate count .dedent) := by
  intro layout known
  subst known
  have differs : width ≠ layout.indents.head?.getD 0 := by omega
  have shallower : ¬ layout.indents.head?.getD 0 < width := by omega
  simp [indentTo, differs, shallower, left, lands, ended, onLine]

theorem readAll_spaces (layout : Layout) (width count : Nat) (rest : List Char) :
    readAll { layout with mode := .margin width } (List.replicate count ' ' ++ rest) =
      readAll { layout with mode := .margin (width + count) } rest := by
  induction count generalizing width with
  | zero => rfl
  | succ count ih =>
      have step : Layout.read { layout with mode := .margin width } ' ' =
          .ok ({ layout with mode := .margin (width + 1) }, []) := rfl
      rw [List.replicate_succ, List.cons_append, readAll_step step, after_nil, ih]
      congr 3
      omega

/-- The first character of code settles the indentation and is then read as code. -/
theorem readAll_enter {indents inner : List Nat} {width : Nat} {marks : List Mark}
    (shift : Shifts indents width inner marks) (layout : Layout) (known : layout.indents = indents)
    {c : Char} (visible : c ∉ [' ', '\t', '\x0c', '\n', '#']) (rest : List Char) :
    readAll { layout with mode := .margin width } (c :: rest) =
      after (onLine layout.line marks)
        (readAll { layout with mode := .code, indents := inner } (c :: rest)) := by
  simp only [List.mem_cons, List.not_mem_nil, or_false, not_or] at visible
  have shifted := shift { layout with mode := .margin width } known
  have step : Layout.read { layout with mode := .margin width } c = readAfter
      (.ok ({ layout with mode := .code, indents := inner }, onLine layout.line marks)) c := by
    simp only [Layout.read, readMargin, visible, if_false, shifted]
  exact readAll_ended step rfl rest

theorem readAll_line {indents inner : List Nat} {width depth : Nat} {shift marks : List Mark}
    {first : Char} {code : List Char} (shifts : Shifts indents width inner shift)
    (lexed : Lexes (first :: code) marks depth) (shallow : depth ≤ maxBrackets)
    (start : isNameStart first = true) (line : Nat) (rest : List Char) :
    readAll (atMargin line indents)
        (List.replicate width ' ' ++ first :: code ++ '\n' :: rest) =
      after (onLine line (shift ++ marks ++ [.newline]))
        (readAll (atMargin (line + 1) inner) rest) := by
  have visible : first ∉ [' ', '\t', '\x0c', '\n', '#'] := by
    have control := not_control_of_isWordStart (isWordStart_of_isNameStart start)
    simp only [List.mem_cons, List.not_mem_nil, or_false, not_or] at control ⊢
    exact ⟨control.1, control.2.1, control.2.2.1, control.2.2.2.2.1, control.2.2.2.1⟩
  have room : ∀ most ∈ some maxBrackets, ([] : List (Char × Nat)).length + depth ≤ most := by
    intro most member
    cases member
    simpa using shallow
  have lineEnd : Layout.read ⟨.code, line, [], inner, some maxBrackets⟩ '\n' =
      .ok (atMargin (line + 1) inner, [⟨.newline, line⟩]) := rfl
  have spaces := readAll_spaces (atMargin line indents) 0 width
    (first :: code ++ '\n' :: rest)
  have entered := readAll_enter shifts (atMargin line indents) rfl visible (code ++ '\n' :: rest)
  have read := lexed line [] inner (some maxBrackets) '\n' rest room (by decide)
  rw [Nat.zero_add] at spaces
  rw [List.append_assoc]
  refine spaces.trans (entered.trans ?_)
  rw [List.cons_append] at read
  show after (onLine line shift)
    (readAll ⟨.code, line, [], inner, some maxBrackets⟩ (first :: (code ++ '\n' :: rest))) = _
  rw [read, readAll_step lineEnd]
  simp

theorem readAll_docstring {indents inner : List Nat} {width : Nat} {shift : List Mark}
    (shifts : Shifts indents width inner shift) (text : List Char) (line : Nat)
    (rest : List Char) :
    ∃ below,
      readAll (atMargin line indents)
          (List.replicate width ' ' ++ '\x27' :: '\x27' :: '\x27' :: docstringBody text ++
            '\x27' :: '\x27' :: '\x27' :: '\n' :: rest) =
        after (onLine line (shift ++ [.text (docstringBody text)]) ++ [⟨.newline, below⟩])
          (readAll (atMargin (below + 1) inner) rest) := by
  let inside : Layout := { atMargin line indents with mode := .code, indents := inner }
  let closing := '\x27' :: '\x27' :: '\x27' :: '\n' :: rest
  have spaces := readAll_spaces (atMargin line indents) 0 width
    ('\x27' :: '\x27' :: '\x27' :: docstringBody text ++ closing)
  rw [Nat.zero_add] at spaces
  have entered := readAll_enter shifts (atMargin line indents) rfl (c := '\x27') (by decide)
    ('\x27' :: '\x27' :: (docstringBody text ++ closing))
  have opened : readAll inside ('\x27' :: '\x27' :: '\x27' :: (docstringBody text ++ closing)) =
      readAll (insideLong inside 0 [] line) (docstringBody text ++ closing) := by
    simp [inside, readAll, Layout.read, readCode, isWordStart, readQuotes, goOn, insideLong,
      atMargin]
  obtain ⟨below, body⟩ := read_long_body inside text line closing
  have ended := read_long_closing { inside with line := below } (docstringBody text) line
    ('\n' :: rest)
  have lineEnd : Layout.read { inside with line := below } '\n' =
      .ok (atMargin (below + 1) inner, [⟨.newline, below⟩]) := rfl
  refine ⟨below, ?_⟩
  rw [List.append_assoc]
  refine spaces.trans (entered.trans ?_)
  show after (onLine line shift) (readAll inside
    ('\x27' :: '\x27' :: '\x27' :: (docstringBody text ++ closing))) = _
  rw [opened, body, ended]
  show after (onLine line shift) (after [⟨.text (docstringBody text), line⟩]
    (readAll { inside with line := below } ('\n' :: rest))) = _
  rw [readAll_step lineEnd]
  simp

theorem readAll_blank (line : Nat) (indents : List Nat) (rest : List Char) :
    readAll (atMargin line indents) ('\n' :: rest) =
      readAll (atMargin (line + 1) indents) rest := by
  have step : Layout.read (atMargin line indents) '\n' =
      .ok (atMargin (line + 1) indents, []) := rfl
  rw [readAll_step step, after_nil]

end Lines

end SchemaClasses.Check.Layout
