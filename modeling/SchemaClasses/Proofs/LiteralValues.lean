import SchemaClasses.Proofs.Compilation
import SchemaClasses.Sdl.Quoted

/-!
The values of written literals. A text between quotes ends at the first closing quotes that no
backslash stands before, and its value is found by replacing the escapes in it. Quoted text has
the value it was made from, and a docstring that text with its line ends unified, and a space
after a quote at the end. Both end at their own closing quotes, whatever follows them.
-/

namespace SchemaClasses.Literal

open Text

section Delimiting

/-! Where a text ends. A backslash takes the character after it along, or the line end. -/

/-- A short text stands between single quotes, and a long one between three. -/
def quotes (long : Bool) : List Char :=
  List.replicate (if long then 3 else 1) '\x27'

/-- What has been read before the rest of a body. -/
def ahead (read : List Char) (found : Option (List Char × List Char)) :
    Option (List Char × List Char) :=
  found.map fun (body, rest) => (read ++ body, rest)

/-- The body of a text and what comes after its closing quotes. A short text ends on its line. -/
def delimit (long : Bool) : List Char → Option (List Char × List Char)
  | [] => none
  | '\\' :: '\r' :: '\n' :: rest => ahead ['\\', '\r', '\n'] (delimit long rest)
  | '\\' :: c :: rest => ahead ['\\', c] (delimit long rest)
  | c :: rest =>
      if quotes long <+: c :: rest then some ([], (c :: rest).drop (quotes long).length)
      else if !long && (c = '\n' || c = '\r') then none
      else ahead [c] (delimit long rest)

theorem ahead_eq_some {read body rest : List Char} {found : Option (List Char × List Char)}
    (done : ahead read found = some (body, rest)) :
    ∃ later, found = some (later, rest) ∧ body = read ++ later := by
  obtain ⟨⟨later, left⟩, same, joined⟩ := Option.map_eq_some_iff.mp done
  cases joined
  exact ⟨later, same, rfl⟩

theorem ahead_nil (found : Option (List Char × List Char)) : ahead [] found = found := by
  cases found <;> rfl

theorem ahead_ahead (first second : List Char) (found : Option (List Char × List Char)) :
    ahead first (ahead second found) = ahead (first ++ second) found := by
  cases found <;> simp [ahead]

theorem delimit_escape (long : Bool) {c : Char} (noReturn : c ≠ '\r') (rest : List Char) :
    delimit long ('\\' :: c :: rest) = ahead ['\\', c] (delimit long rest) := by
  rw [delimit]
  intro tail same
  exact absurd same noReturn

theorem delimit_close (long : Bool) (rest : List Char) :
    delimit long (quotes long ++ rest) = some ([], rest) := by
  cases long <;> simp [quotes, delimit]

theorem delimit_other {long : Bool} {c : Char} {rest : List Char} (noSlash : c ≠ '\\')
    (goesOn : ¬ quotes long <+: c :: rest) (inLine : long = false → c ≠ '\n' ∧ c ≠ '\r') :
    delimit long (c :: rest) = ahead [c] (delimit long rest) := by
  have stays : (!long && (c = '\n' || c = '\r')) = false := by simpa using inLine
  rw [delimit, if_neg goesOn, stays]
  · rfl
  · intro tail same
    exact absurd same noSlash
  · intro d tail same
    exact absurd same noSlash

theorem delimit_parts {long : Bool} {text body rest : List Char}
    (done : delimit long text = some (body, rest)) : text = body ++ (quotes long ++ rest) := by
  fun_induction delimit long text generalizing body with
  | case1 => cases done
  | case2 text ih =>
      obtain ⟨later, read, rfl⟩ := ahead_eq_some done
      rw [ih read]
      rfl
  | case3 c text noPair ih =>
      obtain ⟨later, read, rfl⟩ := ahead_eq_some done
      rw [ih read]
      rfl
  | case4 c text noPair noSlash closed =>
      cases done
      exact (List.prefix_iff_eq_append.mp closed).symm
  | case5 c text noPair noSlash goesOn ends => cases done
  | case6 c text noPair noSlash goesOn inLine ih =>
      obtain ⟨later, read, rfl⟩ := ahead_eq_some done
      rw [ih read]
      rfl

/-- What follows the closing quotes is not looked at. -/
theorem delimit_append {long : Bool} {text body rest : List Char}
    (done : delimit long text = some (body, rest)) (more : List Char) :
    delimit long (text ++ more) = some (body, rest ++ more) := by
  fun_induction delimit long text generalizing body with
  | case1 => cases done
  | case2 text ih =>
      obtain ⟨later, read, rfl⟩ := ahead_eq_some done
      simp [delimit, ih read, ahead]
  | case3 c text noPair ih =>
      obtain ⟨later, read, rfl⟩ := ahead_eq_some done
      rw [List.cons_append, List.cons_append, delimit, ih read, ahead]
      · rfl
      · -- A line end is not split, since the text does not stop here.
        rintro tail rfl feed
        cases text with
        | nil => cases read
        | cons d text =>
            cases feed
            exact noPair text rfl rfl
  | case4 c text noPair noSlash closed =>
      obtain ⟨tail, same⟩ := closed
      rw [← same, List.drop_left] at done
      cases done
      rw [← same, List.append_assoc, delimit_close]
  | case5 c text noPair noSlash goesOn ends => cases done
  | case6 c text noPair noSlash goesOn inLine ih =>
      obtain ⟨later, read, rfl⟩ := ahead_eq_some done
      have enough : (quotes long).length ≤ (c :: text).length := by
        rw [delimit_parts read]
        simp only [List.length_cons, List.length_append]
        omega
      have stillOpen : ¬ quotes long <+: c :: (text ++ more) := fun closes =>
        goesOn (List.prefix_of_prefix_length_le closes (List.prefix_append (c :: text) more) enough)
      have plain : c ≠ '\\' := by
        rintro rfl
        cases text with
        | nil => cases read
        | cons d text => exact noSlash d text rfl rfl
      rw [List.cons_append, delimit_other plain stillOpen (by simpa using inLine), ih read]
      rfl

end Delimiting

section Escapes

/-! What the escapes in a text stand for. Sizes do not count the backslash, and `names` tells the
characters that can be written by their names. -/

def letterMeanings : List (Char × Char) :=
  [('\\', '\\'), ('\x27', '\x27'), ('"', '"'), ('a', '\x07'), ('b', '\x08'), ('f', '\x0c'),
   ('n', '\n'), ('r', '\r'), ('t', '\t'), ('v', '\x0b')]

def numeral (base : Nat) (digits : List Nat) : Nat :=
  digits.foldl (fun value digit => value * base + digit) 0

/-- A letter is followed by a fixed number of hexadecimal digits. The number of half a character
is not that of one. -/
def hexEscape (count : Nat) (text : List Char) : Option (List Char × Nat) := do
  let digits ← (text.take count).mapM Sdl.Quoted.hexValue
  let point := numeral 16 digits
  if digits.length = count && Sdl.Quoted.isScalarValue point then
    some ([Char.ofNat point], count + 1)
  else none

def isOctal (c : Char) : Bool :=
  '0' ≤ c && c ≤ '7'

/-- Up to three octal digits. -/
def octalEscape (text : List Char) : List Char × Nat :=
  let digits := (text.take 3).takeWhile isOctal
  ([Char.ofNat (numeral 8 (digits.map fun c => c.toNat - 48))], digits.length)

/-- A letter is followed by the name of a character in braces. -/
def namedEscape (names : String → Option Char) : List Char → Option (List Char × Nat)
  | '\x7b' :: text =>
      let name := text.takeWhile (· ≠ '\x7d')
      if '\x7d' ∈ text then
        (names (String.ofList name)).map fun c => ([c], name.length + 3)
      else none
  | _ => none

/-- What an escape stands for, and its size. A line end is left out, and before a character
that starts no escape the backslash stays. -/
def escape (names : String → Option Char) : List Char → Option (List Char × Nat)
  | [] => none
  | c :: rest =>
      match List.lookup c letterMeanings with
      | some meaning => some ([meaning], 1)
      | none =>
          if c = '\n' then some ([], 1)
          else if c = 'x' then hexEscape 2 rest
          else if c = 'u' then hexEscape 4 rest
          else if c = 'U' then hexEscape 8 rest
          else if c = 'N' then namedEscape names rest
          else if isOctal c then some (octalEscape (c :: rest))
          else some (['\\', c], 1)

def decode (names : String → Option Char) (body : List Char) : Option (List Char) :=
  match body with
  | [] => some []
  | c :: rest =>
      if c = '\\' then do
        let (meaning, size) ← escape names rest
        let value ← decode names (rest.drop size)
        return meaning ++ value
      else (decode names rest).map (c :: ·)
termination_by body.length

/-- The value of the literal at the start of a text, and what comes after it. Line ends within
the literal are unified before its escapes are replaced. -/
def readLiteral (names : String → Option Char) (long : Bool) (text : List Char) :
    Option (String × List Char) :=
  if quotes long <+: text then do
    let (body, rest) ← delimit long (text.drop (quotes long).length)
    let value ← decode names (unifyNewlines body)
    return (String.ofList value, rest)
  else none

variable (names : String → Option Char)

theorem decode_plain {c : Char} (noSlash : c ≠ '\\') (rest : List Char) :
    decode names (c :: rest) = (decode names rest).map (c :: ·) := by
  rw [decode, if_neg noSlash]

theorem decode_letter {c meaning : Char} (known : List.lookup c letterMeanings = some meaning)
    (rest : List Char) :
    decode names ('\\' :: c :: rest) = (decode names rest).map (meaning :: ·) := by
  rw [decode, if_pos rfl, escape, known]
  change (decode names rest).bind (fun value => some (meaning :: value)) = _
  cases decode names rest <;> rfl

theorem readLiteral_eq {long : Bool} {text body rest value : List Char}
    (delimited : delimit long text = some (body, rest))
    (decoded : decode names (unifyNewlines body) = some value) :
    readLiteral names long (quotes long ++ text) = some (String.ofList value, rest) := by
  rw [readLiteral, if_pos (List.prefix_append _ _), List.drop_left, delimited]
  simp [decoded]

/-- A literal that has been read is read the same with more text behind it. -/
theorem readLiteral_append {long : Bool} {text rest : List Char} {value : String}
    (done : readLiteral names long text = some (value, rest)) (more : List Char) :
    readLiteral names long (text ++ more) = some (value, rest ++ more) := by
  unfold readLiteral at done
  split at done
  · rename_i opened
    obtain ⟨inside, rfl⟩ := opened
    rw [List.drop_left] at done
    cases delimited : delimit long inside with
    | none => simp [delimited] at done
    | some parts =>
        obtain ⟨body, left⟩ := parts
        cases decoded : decode names (unifyNewlines body) with
        | none => simp [delimited, decoded] at done
        | some chars =>
            simp only [delimited, decoded, Option.bind_eq_bind, Option.bind_some, Option.pure_def,
              Option.some.injEq, Prod.mk.injEq] at done
            obtain ⟨rfl, rfl⟩ := done
            rw [List.append_assoc]
            exact readLiteral_eq names (delimit_append delimited more) decoded
  · cases done

example : readLiteral (fun name => if name = "BULLET" then some '•' else none) false
    "\x27\\x41\\102\\N\x7bBULLET\x7d\\q\\\r\n\\\x27\x27 + s".toList =
      some ("AB•\\q\x27", " + s".toList) := by
  decide +kernel

/-- The check, too, takes the body up to the closing quotes for one text, and goes on with what
follows them. -/
def ChecksAs (long : Bool) (body rest : List Char) : Prop :=
  ∀ (layout : Check.Layout) (start : Nat), ∃ below,
    Check.Layout.readAll { layout with mode := .text '\x27' long 0 false [] start }
        (unifyNewlines (body ++ (quotes long ++ rest))) =
      Check.Layout.after [⟨.text (unifyNewlines body), start⟩]
        (Check.Layout.readAll { layout with mode := .code, line := below } (unifyNewlines rest))

theorem unify_quotes (long : Bool) (rest : List Char) :
    unifyNewlines (quotes long ++ rest) = quotes long ++ unifyNewlines rest :=
  unifyNewlines_append (by cases long <;> decide) rest

end Escapes

section QuotedText

theorem escapeChar_known {c letter : Char} (escaped : escapeChar c = ['\\', letter]) :
    List.lookup letter letterMeanings = some c := by
  unfold escapeChar at escaped
  repeat' split at escaped
  all_goals cases escaped
  all_goals
    subst c
    rfl

/-- What is escaped is named by a letter, and anything else may stand in a short text. -/
theorem escapeChar_meaning (c : Char) :
    (∃ letter, escapeChar c = ['\\', letter] ∧ List.lookup letter letterMeanings = some c ∧
        letter ≠ '\r' ∧ letter ≠ '\n') ∨
      escapeChar c = [c] ∧ c ≠ '\\' ∧ c ≠ '\x27' ∧ c ≠ '\r' ∧ c ≠ '\n' := by
  rcases Check.Layout.escapeChar_cases c with ⟨letter, escaped, noFeed⟩ | kept
  · have known := escapeChar_known escaped
    have noReturn : letter ≠ '\r' := by
      rintro rfl
      cases known
    exact .inl ⟨letter, escaped, known, noReturn, noFeed⟩
  · exact .inr kept

theorem escapeChar_inLine (c : Char) : ∀ d ∈ escapeChar c, d ≠ '\r' ∧ d ≠ '\n' := by
  rcases escapeChar_meaning c with ⟨letter, escaped, _, inLine⟩ | ⟨kept, _, _, inLine⟩
  · simpa [escaped] using inLine
  · simpa [kept] using inLine

theorem delimit_escapeChar (c : Char) (rest : List Char) :
    delimit false (escapeChar c ++ rest) = ahead (escapeChar c) (delimit false rest) := by
  rcases escapeChar_meaning c with ⟨letter, escaped, _, noReturn, _⟩ |
    ⟨kept, noSlash, noQuote, noReturn, noFeed⟩
  · rw [escaped]
    exact delimit_escape false noReturn rest
  · rw [kept]
    refine delimit_other noSlash ?_ fun _ => ⟨noFeed, noReturn⟩
    simpa [quotes] using Ne.symm noQuote

theorem decode_escapeChar (names : String → Option Char) (c : Char) (rest : List Char) :
    decode names (escapeChar c ++ rest) = (decode names rest).map (c :: ·) := by
  rcases escapeChar_meaning c with ⟨letter, escaped, known, _⟩ | ⟨kept, noSlash, _⟩
  · rw [escaped]
    exact decode_letter names known rest
  · rw [kept]
    exact decode_plain names noSlash rest

theorem delimit_escaped (text rest : List Char) :
    delimit false (text.flatMap escapeChar ++ (quotes false ++ rest)) =
      some (text.flatMap escapeChar, rest) := by
  induction text with
  | nil => exact delimit_close false rest
  | cons c text ih =>
      rw [List.flatMap_cons, List.append_assoc, delimit_escapeChar, ih]
      rfl

theorem decode_escaped (names : String → Option Char) (text : List Char) :
    decode names (text.flatMap escapeChar) = some text := by
  induction text with
  | nil => rw [List.flatMap_nil, decode]
  | cons c text ih =>
      rw [List.flatMap_cons, decode_escapeChar, ih]
      rfl

theorem quoted_parts (text : String) :
    (quoted text).toList = quotes false ++ (text.toList.flatMap escapeChar ++ quotes false) := by
  simp [quoted, quotes]

/-- Only the two quotes of an empty text can be taken for the first of three. -/
theorem quoted_opens_long (text : String) (rest : List Char) :
    quotes true <+: (quoted text).toList ++ rest ↔ text = "" ∧ rest.head? = some '\x27' := by
  rw [quoted_parts, ← String.toList_eq_nil_iff]
  cases text.toList with
  | nil => cases rest <;> simp [quotes, eq_comm]
  | cons c others =>
      obtain ⟨first, tail, escaped, noQuote⟩ := Check.Layout.escapeChar_head c
      simp [quotes, escaped, Ne.symm noQuote]

theorem escaped_inLine (text : List Char) :
    ∀ c ∈ text.flatMap escapeChar, c ≠ '\r' ∧ c ≠ '\n' := by
  intro c listed
  obtain ⟨original, _, inside⟩ := List.mem_flatMap.mp listed
  exact escapeChar_inLine original c inside

theorem unify_escaped (text rest : List Char) :
    unifyNewlines (text.flatMap escapeChar ++ rest) =
      text.flatMap escapeChar ++ unifyNewlines rest :=
  unifyNewlines_append (fun listed => (escaped_inLine text _ listed).1 rfl) rest

theorem unify_escaped_alone (text : List Char) :
    unifyNewlines (text.flatMap escapeChar) = text.flatMap escapeChar := by
  simpa [unifyNewlines] using unify_escaped text []

theorem checksAs_escaped (text rest : List Char) :
    ChecksAs false (text.flatMap escapeChar) rest := by
  intro layout start
  have closed : Check.Layout.read { layout with
      mode := .text '\x27' false 0 false (text.flatMap escapeChar).reverse start } '\x27' =
      .ok ({ layout with mode := .code }, [⟨.text (text.flatMap escapeChar), start⟩]) := by
    simp [Check.Layout.read, Check.Layout.readText, Check.Layout.endText]
  refine ⟨layout.line, ?_⟩
  rw [unify_escaped, unify_quotes, Check.Layout.readAll_escaped, List.append_nil,
    unify_escaped_alone]
  exact Check.Layout.readAll_step closed (unifyNewlines rest)

/-- Quoted text stands on one line, is read up to its own closing quote and has the value it was
made from. It does not open a long text, unless it is empty and a quote follows. -/
theorem readLiteral_quoted (names : String → Option Char) (text : String) (rest : List Char) :
    readLiteral names false ((quoted text).toList ++ rest) = some (text, rest) ∧
    (∀ c ∈ (quoted text).toList, c ≠ '\r' ∧ c ≠ '\n') ∧
    (∀ part, part <+: (quoted text).toList → part ≠ (quoted text).toList →
      readLiteral names false part = none) ∧
    (quotes true <+: (quoted text).toList ++ rest ↔ text = "" ∧ rest.head? = some '\x27') ∧
    ∃ body, (quoted text).toList = quotes false ++ (body ++ quotes false) ∧
      decode names (unifyNewlines body) = some text.toList ∧ ChecksAs false body rest := by
  have decoded : decode names (unifyNewlines (text.toList.flatMap escapeChar)) =
      some text.toList := by
    rw [unify_escaped_alone, decode_escaped]
  have whole (more : List Char) :
      readLiteral names false ((quoted text).toList ++ more) = some (text, more) := by
    rw [quoted_parts, List.append_assoc, List.append_assoc,
      readLiteral_eq names (delimit_escaped text.toList more) decoded, String.ofList_toList]
  refine ⟨whole rest, ?_, ?_, quoted_opens_long text rest, _, quoted_parts text, decoded,
    checksAs_escaped text.toList rest⟩
  · intro c listed
    simp only [quoted_parts, List.mem_append] at listed
    have quote : c ∈ quotes false → c ≠ '\r' ∧ c ≠ '\n' := by
      intro outside
      rw [List.eq_of_mem_replicate outside]
      decide
    rcases listed with opening | inside | closing
    · exact quote opening
    · exact escaped_inLine text.toList c inside
    · exact quote closing
  · rintro part ⟨more, joined⟩ shorter
    cases read : readLiteral names false part with
    | none => rfl
    | some result =>
        -- Nothing is left after the whole, so nothing was missing in the part.
        have longer := readLiteral_append names read more
        rw [joined, ← List.append_nil (quoted text).toList, whole []] at longer
        obtain ⟨_, nothing⟩ : text = result.1 ∧ result.2 ++ more = [] := by simpa using longer
        rw [(List.append_eq_nil_iff.mp nothing).2, List.append_nil] at joined
        exact absurd joined shorter

end QuotedText

section Docstrings

theorem escapeDocstring_other {c : Char} {text : List Char} (noSlash : c ≠ '\\')
    (noTriple : ¬ quotes true <+: c :: text) :
    escapeDocstring (c :: text) = c :: escapeDocstring text := by
  rw [escapeDocstring.eq_4]
  · rintro rest rfl rfl
    exact noTriple ⟨rest, rfl⟩
  · exact noSlash

theorem escapeDocstring_getLast (text : List Char) :
    (escapeDocstring text).getLast? = text.getLast? := by
  induction text using escapeDocstring.induct with
  | case1 => rfl
  | case2 rest ih => simp [escapeDocstring, List.getLast?_cons, ih]
  | case3 rest ih => simp [escapeDocstring, List.getLast?_cons, ih]
  | case4 c rest noTriple noSlash ih =>
      simp [escapeDocstring.eq_4 c rest noTriple noSlash, List.getLast?_cons, ih]

/-- A space that keeps a quote at the end apart. -/
def padding (text : List Char) : List Char :=
  if text.getLast? = some '\x27' then [' '] else []

theorem docstring_parts (text : String) :
    (docstring text).toList = escapeDocstring text.toList ++ padding text.toList := by
  rw [docstring, String.toList_ofList, padQuote, padding, escapeDocstring_getLast]
  split <;> simp

theorem escapeDocstring_eq_nil {text : List Char} : escapeDocstring text = [] ↔ text = [] := by
  rw [← List.getLast?_eq_none_iff, escapeDocstring_getLast, List.getLast?_eq_none_iff]

theorem quote_ahead {text rest more : List Char}
    (starts : escapeDocstring text ++ rest = '\x27' :: more) :
    (∃ others, text = '\x27' :: others) ∨ text = [] ∧ rest.head? = some '\x27' := by
  by_cases empty : text = []
  · subst empty
    exact .inr ⟨rfl, by rw [← List.nil_append rest]; exact congrArg List.head? starts⟩
  · obtain ⟨first, others, shape⟩ :=
      List.exists_cons_of_ne_nil (mt escapeDocstring_eq_nil.mp empty)
    rw [shape] at starts
    have quote : (escapeDocstring text).head? = some '\x27' := by
      rw [shape, (List.cons.inj starts).1]
      rfl
    exact .inl (List.head?_eq_some_iff.mp (escapeDocstring_head (by decide) quote))

/-- A quote that is not escaped does not come to stand before two others. -/
theorem escapeDocstring_apart {text rest : List Char} (noTriple : ¬ quotes true <+: '\x27' :: text)
    (parted : ('\x27' :: text).getLast? = some '\x27' → rest.head? ≠ some '\x27') :
    ¬ quotes true <+: '\x27' :: (escapeDocstring text ++ rest) := by
  rintro ⟨more, joined⟩
  have two : escapeDocstring text ++ rest = '\x27' :: '\x27' :: more :=
    (List.cons.inj joined).2.symm
  rcases quote_ahead two with ⟨others, rfl⟩ | ⟨rfl, starts⟩
  · have second : ¬ quotes true <+: '\x27' :: others := by
      rintro ⟨tail, triple⟩
      exact noTriple ⟨'\x27' :: tail, by rw [← triple]; rfl⟩
    rw [escapeDocstring_other (by decide) second] at two
    rcases quote_ahead (List.cons.inj two).2 with ⟨tail, rfl⟩ | ⟨rfl, starts⟩
    · exact noTriple ⟨tail, rfl⟩
    · exact parted rfl starts
  · exact parted rfl starts

/-- Up to its end the escaped text holds no closing quotes. The induction is on how quotes are
taken together in threes. -/
theorem delimit_escapeDocstring {text rest : List Char}
    (parted : text.getLast? = some '\x27' → rest.head? ≠ some '\x27') :
    delimit true (escapeDocstring text ++ rest) =
      ahead (escapeDocstring text) (delimit true rest) := by
  induction text using escapeDocstring.induct with
  | case1 => exact (ahead_nil _).symm
  | case2 text ih =>
      have later := ih fun last => parted (by simp [List.getLast?_cons, last])
      simp only [escapeDocstring, List.cons_append]
      rw [delimit_escape _ (by decide), delimit_escape _ (by decide), delimit_escape _ (by decide),
        later, ahead_ahead, ahead_ahead, ahead_ahead]
      rfl
  | case3 text ih =>
      have later := ih fun last => parted (by simp [List.getLast?_cons, last])
      simp only [escapeDocstring, List.cons_append]
      rw [delimit_escape _ (by decide), later, ahead_ahead]
      rfl
  | case4 c text noTriple noSlash ih =>
      have later := ih fun last => parted (by simp [List.getLast?_cons, last])
      have single : ¬ quotes true <+: c :: text := by
        rintro ⟨tail, same⟩
        cases same
        exact noTriple tail rfl rfl
      have goesOn : ¬ quotes true <+: c :: (escapeDocstring text ++ rest) := by
        by_cases quote : c = '\x27'
        · subst quote
          exact escapeDocstring_apart single parted
        · rintro ⟨tail, same⟩
          exact quote (List.cons.inj same).1.symm
      rw [escapeDocstring_other noSlash single, List.cons_append,
        delimit_other noSlash goesOn (by simp), later, ahead_ahead]
      rfl

theorem decode_escapeDocstring (names : String → Option Char) (text rest : List Char) :
    decode names (escapeDocstring text ++ rest) = (decode names rest).map (text ++ ·) := by
  have quote := decode_letter names (c := '\x27') rfl
  have slash := decode_letter names (c := '\\') rfl
  induction text using escapeDocstring.induct with
  | case1 => simp [escapeDocstring]
  | case2 text ih => simp [escapeDocstring, quote, ih, Function.comp_def]
  | case3 text ih => simp [escapeDocstring, slash, ih, Function.comp_def]
  | case4 c text noTriple noSlash ih =>
      rw [escapeDocstring.eq_4 c text noTriple noSlash, List.cons_append,
        decode_plain names fun same => noSlash same, ih]
      simp [Function.comp_def]

theorem delimit_docstring (text : String) (rest : List Char) :
    delimit true ((docstring text).toList ++ (quotes true ++ rest)) =
      some ((docstring text).toList, rest) := by
  rw [docstring_parts, padding, List.append_assoc]
  split
  · -- The space keeps the last quote apart from the closing ones.
    have space : delimit true (' ' :: (quotes true ++ rest)) = some ([' '], rest) := by
      rw [delimit_other (by decide) (by simp [quotes]) (by simp), delimit_close]
      rfl
    rw [List.singleton_append, delimit_escapeDocstring (by simp), space]
    rfl
  · rename_i noQuote
    rw [List.nil_append, delimit_escapeDocstring fun last => absurd last noQuote, delimit_close]
    rfl

theorem decode_docstring (names : String → Option Char) (text : String) :
    decode names (unifyNewlines (docstring text).toList) =
      some (unifyNewlines text.toList ++ padding text.toList) := by
  have unified : unifyNewlines (escapeDocstring text.toList ++ padding text.toList) =
      escapeDocstring (unifyNewlines text.toList) ++ padding text.toList := by
    rw [← escapeDocstring_unify, padding]
    split
    · exact unifyNewlines_parted _ (by decide) []
    · rw [List.append_nil, List.append_nil]
  have kept : decode names (padding text.toList) = some (padding text.toList) := by
    rw [padding]
    split
    · rw [decode_plain names (by decide), decode]
      rfl
    · rw [decode]
  rw [docstring_parts, unified, decode_escapeDocstring, kept]
  rfl

theorem checksAs_docstring (text : String) (rest : List Char) :
    ChecksAs true (docstring text).toList rest := by
  intro layout start
  obtain ⟨below, body⟩ := Check.Layout.read_long_body layout (unifyNewlines text.toList) start
    (quotes true ++ unifyNewlines rest)
  have parted : unifyNewlines ((docstring text).toList ++ (quotes true ++ rest)) =
      unifyNewlines (docstring text).toList ++ (quotes true ++ unifyNewlines rest) := by
    rw [← unify_quotes]
    exact unifyNewlines_parted _ (by decide) _
  refine ⟨below, ?_⟩
  rw [parted, Check.docstring_unify, Check.Layout.docstring_toList, String.toList_ofList]
  exact body.trans (Check.Layout.read_long_closing _ _ start _)

/-- A docstring is read up to the quotes that are put after it. Its value is the text it was made
from, with unified line ends and a space after a quote at the end. -/
theorem readLiteral_docstring (names : String → Option Char) (text : String) (rest : List Char) :
    readLiteral names true (quotes true ++ ((docstring text).toList ++ (quotes true ++ rest))) =
      some (String.ofList (unifyNewlines text.toList ++
        if text.toList.getLast? = some '\x27' then [' '] else []), rest) ∧
    decode names (unifyNewlines (docstring text).toList) = some (unifyNewlines text.toList ++
        if text.toList.getLast? = some '\x27' then [' '] else []) ∧
    ChecksAs true (docstring text).toList rest :=
  ⟨readLiteral_eq names (delimit_docstring text rest) (decode_docstring names text),
    decode_docstring names text, checksAs_docstring text rest⟩

end Docstrings

end SchemaClasses.Literal
