import SchemaClasses.Proofs.Compilation
import SchemaClasses.Proofs.PhraseCharacters

/-!
What a written module says can be read off its text. Each part ends at a place that the
text itself shows: a name before the first character that no name has, a value at the end
of its line, a docstring at its closing quotes, and a class where no indented line follows.
So no description can add to the classes, their bodies or the wiring, or alter them.
-/

namespace SchemaClasses.Output

open Schema Naming Check Check.Layout

section Cutting

/-- Two texts that are followed by what `ends` allows are cut off at the same place, and
what is seen of the values they were written from agrees. -/
structure Cuts {α β : Type} (text : α → List Char) (seen : α → β) (valid : α → Prop)
    (ends : List Char → Prop) : Prop where
  cut : ∀ {first second : α} {rest others : List Char}, valid first → valid second →
    ends rest → ends others → text first ++ rest = text second ++ others →
    seen first = seen second ∧ rest = others

variable {α β γ δ : Type}

theorem Cuts.comap {text : α → List Char} {seen : α → β} {valid : α → Prop}
    {ends : List Char → Prop} (cuts : Cuts text seen valid ends) (source : γ → α) (view : γ → δ)
    (legible : γ → Prop) (holds : ∀ item, legible item → valid (source item))
    (views : ∀ first second, legible first → legible second →
      seen (source first) = seen (source second) → view first = view second) :
    Cuts (fun item => text (source item)) view legible ends where
  cut {first second rest others} fine alsoFine ending alsoEnding same := by
    obtain ⟨agree, left⟩ :=
      cuts.cut (holds first fine) (holds second alsoFine) ending alsoEnding same
    exact ⟨views first second fine alsoFine agree, left⟩

theorem Cuts.congr {text written : α → List Char} {seen : α → β} {valid : α → Prop}
    {ends : List Char → Prop} (cuts : Cuts text seen valid ends)
    (same : ∀ item, valid item → written item = text item) : Cuts written seen valid ends where
  cut {first second rest others} fine alsoFine ending alsoEnding agree := by
    rw [same first fine, same second alsoFine] at agree
    exact cuts.cut fine alsoFine ending alsoEnding agree

theorem Cuts.after {text : α → List Char} {seen : α → β} {valid : α → Prop}
    {ends : List Char → Prop} (cuts : Cuts text seen valid ends) (opening : List Char) :
    Cuts (fun item => opening ++ text item) seen valid ends where
  cut {first second rest others} fine alsoFine ending alsoEnding same := by
    rw [List.append_assoc, List.append_assoc, List.append_cancel_left_eq] at same
    exact cuts.cut fine alsoFine ending alsoEnding same

/-- A text without stops ends at the first one. -/
theorem cut_before (stop : Char → Prop) {first second rest others : List Char}
    (clear : ∀ c ∈ first, ¬ stop c) (alsoClear : ∀ c ∈ second, ¬ stop c)
    (stops : ∀ c ∈ rest.head?, stop c) (alsoStops : ∀ c ∈ others.head?, stop c)
    (same : first ++ rest = second ++ others) : first = second ∧ rest = others := by
  induction first generalizing second with
  | nil =>
      cases second with
      | nil => exact ⟨rfl, same⟩
      | cons c second =>
          have stopped := stops c (by simp [show rest = c :: (second ++ others) from same])
          exact absurd stopped (alsoClear c (by simp))
  | cons c first ih =>
      cases second with
      | nil =>
          have stopped := alsoStops c (by simp [← show c :: (first ++ rest) = others from same])
          exact absurd stopped (clear c (by simp))
      | cons d second =>
          obtain ⟨rfl, tails⟩ := List.cons.inj same
          obtain ⟨rfl, left⟩ := ih (fun e member => clear e (by simp [member]))
            (fun e member => alsoClear e (by simp [member])) tails
          exact ⟨rfl, left⟩

/-- The text goes on with a character that no name has, if it goes on. -/
def Parted (rest : List Char) : Prop :=
  ∀ c ∈ rest.head?, ¬ isNamePart c = true

theorem parted_cons {c : Char} (outside : isNamePart c = false) (tail : List Char) :
    Parted (c :: tail) := by
  simpa [Parted] using outside

/-- Made of the characters of names, but maybe empty. -/
def NameParts (name : String) : Prop :=
  ∀ c ∈ name.toList, isNamePart c = true

theorem cuts_nameParts : Cuts String.toList id NameParts Parted := by
  constructor
  intro first second rest others parts alsoParts parted alsoParted same
  obtain ⟨agree, left⟩ := cut_before (fun c => ¬ isNamePart c = true)
    (fun c member => not_not_intro (parts c member))
    (fun c member => not_not_intro (alsoParts c member)) parted alsoParted same
  exact ⟨String.toList_inj.mp agree, left⟩

theorem cuts_line :
    Cuts (fun line : String => line.toList ++ ['\n']) id (fun line => '\n' ∉ line.toList)
      (fun _ => True) := by
  constructor
  intro first second rest others clear alsoClear _ _ same
  rw [List.append_assoc, List.append_assoc] at same
  obtain ⟨agree, left⟩ := cut_before (· = '\n') (fun c member => ne_of_mem_of_not_mem member clear)
    (fun c member => ne_of_mem_of_not_mem member alsoClear) (by simp) (by simp) same
  exact ⟨String.toList_inj.mp agree, (List.cons.inj left).2⟩

section Sequences

variable {text : α → List Char} {seen : α → β} {valid : α → Prop} {ends : List Char → Prop}

/-- After an item stands another one or the rest, and the item ends before either. -/
theorem ends_flatMap {start : List Char}
    (starts : ∀ item, valid item → ∀ rest, start <+: text item ++ rest)
    (within : ∀ rest, start <+: rest → ends rest) {items : List α}
    (valids : ∀ item ∈ items, valid item) {rest : List Char} (ending : ends rest) :
    ends (items.flatMap text ++ rest) := by
  cases items with
  | nil => exact ending
  | cons item items =>
      rw [List.flatMap_cons, List.append_assoc]
      exact within _ (starts item (valids item (by simp)) _)

/-- Items are told apart from the rest where each starts in a way in which it does not. -/
theorem Cuts.flatMap (cuts : Cuts text seen valid ends) (start : List Char)
    (starts : ∀ item, valid item → ∀ rest, start <+: text item ++ rest)
    (within : ∀ rest, start <+: rest → ends rest) :
    Cuts (fun items => items.flatMap text) (List.map seen) (fun items => ∀ item ∈ items, valid item)
      (fun rest => ends rest ∧ ¬ start <+: rest) := by
  constructor
  intro first second rest others valids alsoValids ending alsoEnding same
  -- Both lists are taken apart at once: an item on one side only would start the rest.
  induction first generalizing second with
  | nil =>
      cases second with
      | nil => exact ⟨rfl, same⟩
      | cons item second =>
          have begun := starts item (alsoValids item (by simp)) (second.flatMap text ++ others)
          rw [← List.append_assoc, ← List.flatMap_cons, ← same] at begun
          exact absurd begun ending.2
  | cons item first ih =>
      cases second with
      | nil =>
          have begun := starts item (valids item (by simp)) (first.flatMap text ++ rest)
          rw [← List.append_assoc, ← List.flatMap_cons, same] at begun
          exact absurd begun alsoEnding.2
      | cons other second =>
          have later := fun item member => valids item (List.mem_cons_of_mem _ member)
          have alsoLater := fun item member => alsoValids item (List.mem_cons_of_mem _ member)
          simp only [List.flatMap_cons, List.append_assoc] at same
          obtain ⟨agree, tails⟩ := cuts.cut (valids item (by simp)) (alsoValids other (by simp))
            (ends_flatMap starts within later ending.1)
            (ends_flatMap starts within alsoLater alsoEnding.1) same
          obtain ⟨agreeLater, left⟩ := ih later alsoLater tails
          exact ⟨by simpa using ⟨agree, agreeLater⟩, left⟩

theorem Cuts.intercalate (cuts : Cuts text seen valid ends) (separator start : List Char)
    (starts : ∀ item, valid item → ∀ rest, start <+: (separator ++ text item) ++ rest)
    (within : ∀ rest, start <+: rest → ends rest) :
    Cuts (fun items => separator.intercalate (items.map text)) (List.map seen)
      (fun items => items ≠ [] ∧ ∀ item ∈ items, valid item)
      (fun rest => ends rest ∧ ¬ start <+: rest) := by
  constructor
  intro first second rest others valids alsoValids ending alsoEnding same
  obtain ⟨item, first, rfl⟩ := List.exists_cons_of_ne_nil valids.1
  obtain ⟨other, second, rfl⟩ := List.exists_cons_of_ne_nil alsoValids.1
  have later := fun item member => valids.2 item (List.mem_cons_of_mem _ member)
  have alsoLater := fun item member => alsoValids.2 item (List.mem_cons_of_mem _ member)
  simp only [List.map_cons, intercalate_cons, List.flatMap_map, List.append_assoc] at same
  obtain ⟨agree, tails⟩ := cuts.cut (valids.2 item (by simp)) (alsoValids.2 other (by simp))
    (ends_flatMap starts within later ending.1)
    (ends_flatMap starts within alsoLater alsoEnding.1) same
  have cutsLater := (cuts.after separator).flatMap start starts within
  obtain ⟨agreeLater, left⟩ := cutsLater.cut later alsoLater ending alsoEnding tails
  exact ⟨by simpa using ⟨agree, agreeLater⟩, left⟩

theorem Cuts.optional (cuts : Cuts text seen valid ends) (start : List Char)
    (starts : ∀ item, valid item → ∀ rest, start <+: text item ++ rest)
    (within : ∀ rest, start <+: rest → ends rest) :
    Cuts (fun item : Option α => item.toList.flatMap text) (Option.map seen)
      (fun item => ∀ known ∈ item, valid known) (fun rest => ends rest ∧ ¬ start <+: rest) := by
  apply (cuts.flatMap start starts within).comap Option.toList
  · intro item valids known listed
    exact valids known (Option.mem_toList.mp listed)
  · intro first second _ _ same
    cases first <;> cases second <;> simp_all

end Sequences

end Cutting

section Lines

/-! Names with commas between them, and the lines that assign a value to a name. -/

def Spelled (name : String) : Prop :=
  spellsName name.toList = true

instance (name : String) : Decidable (Spelled name) :=
  inferInstanceAs (Decidable (_ = true))

theorem Spelled.parts {name : String} (spelled : Spelled name) : NameParts name :=
  namePart_of_spellsName spelled

theorem Spelled.ne_empty {name : String} (spelled : Spelled name) : name ≠ "" := by
  rintro rfl
  exact absurd spelled (by decide)

theorem cuts_joined :
    Cuts (fun names : List String => [',', ' '].intercalate (names.map String.toList)) id
      (fun names => names ≠ [] ∧ ∀ name ∈ names, NameParts name)
      (fun rest => Parted rest ∧ ¬ [','] <+: rest) := by
  have within : ∀ rest, [','] <+: rest → Parted rest := by
    rintro _ ⟨rest, rfl⟩
    exact parted_cons (by decide) rest
  simpa using cuts_nameParts.intercalate [',', ' '] [','] (by simp) within

/-- The comma of a tuple of one name stands as before an empty second one. -/
def padded : List String → List String
  | [name] => [name, ""]
  | names => names

theorem tuple_text (names : List String) :
    (Literal.tuple names).toList =
      '(' :: ([',', ' '].intercalate ((padded names).map String.toList) ++ [')']) := by
  match names with
  | [] => simp [Literal.tuple, padded]
  | [name] => simp [Literal.tuple, padded, List.intercalate_cons_cons]
  | name :: second :: others => simp [Literal.tuple, padded]

theorem padded_parts {names : List String} (spelled : ∀ name ∈ names, Spelled name) :
    ∀ name ∈ padded names, NameParts name := by
  match names with
  | [] => simp [padded]
  | [name] => simpa [padded, NameParts] using (spelled name (by simp)).parts
  | name :: second :: others => exact fun known listed => (spelled known listed).parts

theorem padded_injective {first second : List String} (spelled : ∀ name ∈ first, Spelled name)
    (alsoSpelled : ∀ name ∈ second, Spelled name) (same : padded first = padded second) :
    first = second := by
  -- Only a pair with an empty second name could be taken for a single name.
  match first, second with
  | [], [] => rfl
  | [], [_] => cases same
  | [], _ :: _ :: _ => cases same
  | [_], [] => cases same
  | [_], [_] => simpa [padded] using same
  | [_], _ :: other :: _ =>
      have empty : "" = other := (List.cons.inj (List.cons.inj same).2).1
      exact absurd empty.symm (alsoSpelled other (by simp)).ne_empty
  | _ :: _ :: _, [] => cases same
  | _ :: other :: _, [_] =>
      have empty : other = "" := (List.cons.inj (List.cons.inj same).2).1
      exact absurd empty (spelled other (by simp)).ne_empty
  | _ :: _ :: _, _ :: _ :: _ => exact same

theorem tuple_injective {first second : List String} (filled : first ≠ [])
    (alsoFilled : second ≠ []) (spelled : ∀ name ∈ first, Spelled name)
    (alsoSpelled : ∀ name ∈ second, Spelled name)
    (same : Literal.tuple first = Literal.tuple second) : first = second := by
  have padFilled : ∀ names : List String, names ≠ [] → padded names ≠ [] := by
    intro names filled
    match names with
    | [] => exact absurd rfl filled
    | [name] => simp [padded]
    | name :: second :: others => simp [padded]
  have parted : Parted [')'] ∧ ¬ [','] <+: [')'] := ⟨parted_cons (by decide) [], by decide⟩
  have texts := congrArg String.toList same
  rw [tuple_text, tuple_text] at texts
  exact padded_injective spelled alsoSpelled
    (cuts_joined.cut ⟨padFilled first filled, padded_parts spelled⟩
      ⟨padFilled second alsoFilled, padded_parts alsoSpelled⟩ parted parted
      (List.cons.inj texts).2).1

theorem tuple_noFeed {names : List String} (spelled : ∀ name ∈ names, Spelled name) :
    '\n' ∉ (Literal.tuple names).toList := by
  have parts := padded_parts spelled
  rw [tuple_text]
  intro member
  simp only [List.mem_cons, List.mem_append, List.not_mem_nil, or_false] at member
  rcases member with opener | inside | closer
  · exact absurd opener (by decide)
  · rcases mem_intercalate inside with between | ⟨piece, listed, within⟩
    · exact absurd between (by decide)
    · obtain ⟨name, known, rfl⟩ := List.mem_map.mp listed
      exact absurd (parts name known _ within) (by decide)
  · exact absurd closer (by decide)

theorem cuts_assignment (indent : List Char) :
    Cuts (fun line : String × String =>
        indent ++ (line.1.toList ++ ([' ', '=', ' '] ++ (line.2.toList ++ ['\n'])))) id
      (fun line => NameParts line.1 ∧ '\n' ∉ line.2.toList) (fun _ => True) := by
  constructor
  intro first second rest others legible alsoLegible _ _ same
  have parted : ∀ tail : List Char, Parted ([' ', '=', ' '] ++ tail) :=
    fun tail => parted_cons (by decide) _
  simp only [List.append_assoc, List.append_cancel_left_eq] at same
  obtain ⟨name, tails⟩ := cuts_nameParts.cut legible.1 alsoLegible.1 (parted _) (parted _) same
  rw [List.append_cancel_left_eq, ← List.append_assoc, ← List.append_assoc] at tails
  obtain ⟨value, left⟩ := cuts_line.cut legible.2 alsoLegible.2 trivial trivial tails
  exact ⟨Prod.ext name value, left⟩

/-- A key with the names of its tuple. -/
def LegibleEntry (entry : String × List String) : Prop :=
  Spelled entry.1 ∧ entry.2 ≠ [] ∧ ∀ name ∈ entry.2, Spelled name

theorem cuts_metaLine :
    Cuts (fun entry => (metaLine entry).toList) id LegibleEntry (fun _ => True) := by
  have cuts := (cuts_assignment "    ".toList).comap
    (fun entry : String × List String => (entry.1, Literal.tuple entry.2)) id LegibleEntry
    (fun entry legible => ⟨legible.1.parts, tuple_noFeed legible.2.2⟩) (by
      intro first second legible alsoLegible same
      obtain ⟨key, tuple⟩ := Prod.mk.inj same
      exact Prod.ext key
        (tuple_injective legible.2.1 alsoLegible.2.1 legible.2.2 alsoLegible.2.2 tuple))
  simpa [metaLine] using cuts

def LegibleAttribute (assignment : Attribute) : Prop :=
  Spelled assignment.name ∧ '\n' ∉ assignment.value.toList

theorem cuts_attribute :
    Cuts (fun assignment : Attribute => assignment.render.toList) id LegibleAttribute
      (fun _ => True) := by
  have cuts := (cuts_assignment "  ".toList).comap
    (fun assignment : Attribute => (assignment.name, assignment.value)) id LegibleAttribute
    (fun assignment legible => ⟨legible.1.parts, legible.2⟩) (by
      rintro ⟨name, value⟩ ⟨other, alsoValue⟩ _ _ same
      cases same
      rfl)
  simpa [Attribute.render] using cuts

end Lines

section Docstrings

/-! Quotes inside a docstring are never taken for the closing ones: with two of these the
reader is still inside, and with three it is not. -/

/-- Inside a docstring the text gives no token. -/
def Silent (text : List Char) : Prop :=
  ∃ last, readAll (insideLong {} 0 [] 0) text = .ok (last, [])

def closingQuotes : List Char := ['\x27', '\x27', '\x27']

theorem silent_open (text : List Char) : Silent (docstringBody text ++ ['\x27', '\x27']) := by
  obtain ⟨below, body⟩ := read_long_body {} text 0 ['\x27', '\x27']
  rw [read_long_quote _ _ _ _ _ (by decide), read_long_quote _ _ _ _ _ (by decide)] at body
  exact ⟨_, body⟩

theorem not_silent_closed (text more : List Char) :
    ¬ Silent (docstringBody text ++ closingQuotes ++ more) := by
  rintro ⟨last, read⟩
  obtain ⟨below, body⟩ := read_long_body {} text 0 (closingQuotes ++ more)
  have closed := read_long_closing { line := below } (docstringBody text) 0 more
  rw [List.append_assoc, body] at read
  have nothing := closed.symm.trans read
  cases later : readAll { mode := .code, line := below } more with
  | error flaw => simp [later, after, Except.map] at nothing
  | ok result => simp [later, after, Except.map] at nothing

theorem closed_not_longer {first second more : List Char}
    (same : docstringBody second ++ closingQuotes = docstringBody first ++ closingQuotes ++ more) :
    more = [] := by
  rcases List.eq_nil_or_concat more with rfl | ⟨before, last, rfl⟩
  · rfl
  · -- Without the last quote the longer text gives nothing, but the shorter one is in it.
    have shorter : docstringBody second ++ ['\x27', '\x27'] =
        docstringBody first ++ closingQuotes ++ before := by
      have ended : (docstringBody second ++ ['\x27', '\x27']) ++ ['\x27'] =
          (docstringBody first ++ closingQuotes ++ before) ++ [last] := by
        simpa [closingQuotes] using same
      exact (List.append_inj' ended rfl).1
    exact absurd (shorter ▸ silent_open second) (not_silent_closed first before)

theorem docstringBody_cut {first second rest others : List Char}
    (same : docstringBody first ++ closingQuotes ++ rest =
      docstringBody second ++ closingQuotes ++ others) :
    docstringBody first = docstringBody second ∧ rest = others := by
  have closed : docstringBody first ++ closingQuotes = docstringBody second ++ closingQuotes ∧
      rest = others := by
    rcases List.append_eq_append_iff.mp same with ⟨more, longer, left⟩ | ⟨more, longer, left⟩
    · have nothing := closed_not_longer longer
      subst nothing
      exact ⟨by simpa using longer.symm, left⟩
    · have nothing := closed_not_longer longer
      subst nothing
      exact ⟨by simpa using longer, left.symm⟩
  exact ⟨List.append_cancel_right closed.1, closed.2⟩

theorem cuts_docstring :
    Cuts (fun description => (docstringText description).toList) (Option.map Literal.docstring)
      (fun description => ∀ text ∈ description, text ≠ "")
      (fun rest => ¬ [' ', ' ', '\x27'] <+: rest) := by
  let opening : List Char := [' ', ' ', '\x27', '\x27', '\x27']
  have inside : Cuts (fun text : String => docstringBody text.toList ++ closingQuotes ++ ['\n'])
      Literal.docstring (· ≠ "") (fun _ => True) := by
    constructor
    intro first second rest others _ _ _ _ same
    rw [List.append_assoc _ ['\n'], List.append_assoc _ ['\n']] at same
    obtain ⟨bodies, left⟩ := docstringBody_cut same
    rw [← docstring_toList, ← docstring_toList] at bodies
    exact ⟨String.toList_inj.mp bodies, (List.cons.inj left).2⟩
  have cuts := (inside.after opening).optional [' ', ' ', '\x27'] (by simp [opening])
    (fun _ _ => trivial)
  simp only [true_and] at cuts
  apply cuts.congr
  intro description filled
  cases description with
  | none => rfl
  | some text =>
      simp [docstringText, present_some (filled text rfl), docstring_toList, closingQuotes, opening]

end Docstrings

section Classes

structure Legible (declaration : ClassDeclaration) : Prop where
  name : Spelled declaration.name
  base : Spelled declaration.base
  described : ∀ text ∈ declaration.description, text ≠ ""
  entries : ∀ entry ∈ declaration.metaEntries, LegibleEntry entry
  attributes : ∀ assignment ∈ declaration.attributes, LegibleAttribute assignment

/-- The class, with its description as it is written. -/
def shown (declaration : ClassDeclaration) : ClassDeclaration :=
  { declaration with description := declaration.description.map Literal.docstring }

/-- No line of a class comes next, not even after a blank one. -/
def Ending (rest : List Char) : Prop :=
  ¬ [' '] <+: rest ∧ ¬ ['\n', ' '] <+: rest

def attributesText (attributes : List Attribute) : List Char :=
  attributes.flatMap fun assignment => assignment.render.toList

def entriesText (entries : Entries (List String)) : List Char :=
  entries.flatMap fun entry => (metaLine entry).toList

/-- Attributes after meta entries are parted from them. -/
def gap (attributes : List Attribute) : List Char :=
  if attributes.isEmpty then [] else ['\n']

theorem bodyText_meta {declaration : ClassDeclaration} (filled : declaration.metaEntries ≠ []) :
    bodyText declaration = "  class Meta:\n".toList ++ (entriesText declaration.metaEntries ++
      (gap declaration.attributes ++ attributesText declaration.attributes)) := by
  have notEmpty : declaration.metaEntries.isEmpty = false := by simpa using filled
  by_cases bare : declaration.attributes.isEmpty = true <;>
    simp [bodyText, metaText, notEmpty, ClassDeclaration.isEmpty, bare, gap, entriesText,
      attributesText, String.toList_join, List.flatMap_map]

theorem bodyText_attributes {declaration : ClassDeclaration} (plain : declaration.metaEntries = [])
    (filled : declaration.attributes ≠ []) :
    bodyText declaration = attributesText declaration.attributes := by
  have notEmpty : declaration.attributes.isEmpty = false := by simpa using filled
  simp [bodyText, metaText, plain, ClassDeclaration.isEmpty, notEmpty, attributesText,
    String.toList_join, List.flatMap_map]

theorem bodyText_pass {declaration : ClassDeclaration} (plain : declaration.metaEntries = [])
    (bare : declaration.attributes = []) : bodyText declaration = "  pass\n".toList := by
  simp [bodyText, metaText, plain, bare, ClassDeclaration.isEmpty]

/-- The first line of a body tells whether there are meta entries and whether there is
anything at all. -/
theorem bodyText_opening {declaration : ClassDeclaration} (legible : Legible declaration)
    (rest : List Char) :
    ∃ word tail, Spelled word ∧ Parted tail ∧
      bodyText declaration ++ rest = [' ', ' '] ++ (word.toList ++ tail) ∧
      ([' ', 'M'] <+: tail ↔ declaration.metaEntries ≠ []) ∧
      (['\n'] <+: tail ↔ declaration.metaEntries = [] ∧ declaration.attributes = []) := by
  by_cases plain : declaration.metaEntries = []
  · cases attributes : declaration.attributes with
    | nil =>
        refine ⟨"pass", '\n' :: rest, by decide, parted_cons (by decide) _, ?_, by simp [plain],
          by simp [plain]⟩
        rw [bodyText_pass plain attributes]
        rfl
    | cons assignment others =>
        have filled : declaration.attributes ≠ [] := by simp [attributes]
        have named := (legible.attributes assignment (by simp [attributes])).1
        refine ⟨assignment.name,
          [' ', '=', ' '] ++ assignment.value.toList ++ '\n' :: (attributesText others ++ rest),
          named, parted_cons (by decide) _, ?_, by simp [plain], by simp⟩
        rw [bodyText_attributes plain filled, attributes]
        simp [attributesText, Attribute.render]
  · refine ⟨"class", " Meta:\n".toList ++ (entriesText declaration.metaEntries ++
        (gap declaration.attributes ++ attributesText declaration.attributes)) ++ rest,
      by decide, parted_cons (by decide) _, ?_, by simp [plain], by simp [plain]⟩
    rw [bodyText_meta plain]
    simp

theorem cuts_attributes :
    Cuts attributesText id
      (fun attributes => ∀ assignment ∈ attributes, LegibleAttribute assignment)
      (fun rest => ¬ [' '] <+: rest) := by
  have cuts := cuts_attribute.flatMap [' '] (by simp [Attribute.render]) (fun _ _ => trivial)
  simp only [List.map_id_fun, true_and] at cuts
  exact cuts

theorem cuts_entries :
    Cuts entriesText id (fun entries => ∀ entry ∈ entries, LegibleEntry entry)
      (fun rest => ¬ [' '] <+: rest) := by
  have cuts := cuts_metaLine.flatMap [' '] (by simp [metaLine]) (fun _ _ => trivial)
  simp only [List.map_id_fun, true_and] at cuts
  exact cuts

theorem attributesText_indented {attributes : List Attribute} (filled : attributes ≠ [])
    (rest : List Char) : ['\n', ' '] <+: gap attributes ++ attributesText attributes ++ rest := by
  obtain ⟨assignment, others, rfl⟩ := List.exists_cons_of_ne_nil filled
  simp [gap, attributesText, Attribute.render]

theorem cuts_gap :
    Cuts (fun attributes => gap attributes ++ attributesText attributes) id
      (fun attributes => ∀ assignment ∈ attributes, LegibleAttribute assignment) Ending := by
  constructor
  intro first second rest others legible alsoLegible ending alsoEnding same
  by_cases bare : first = []
  · by_cases alsoBare : second = []
    · subst bare alsoBare
      exact ⟨rfl, same⟩
    · have indented := attributesText_indented alsoBare others
      rw [← same, bare] at indented
      exact absurd indented ending.2
  · by_cases alsoBare : second = []
    · have indented := attributesText_indented bare rest
      rw [same, alsoBare] at indented
      exact absurd indented alsoEnding.2
    · have feed : ∀ attributes : List Attribute, attributes ≠ [] → gap attributes = ['\n'] := by
        intro attributes filled
        simp [gap, filled]
      rw [feed first bare, feed second alsoBare, List.append_assoc, List.append_assoc,
        List.append_cancel_left_eq] at same
      exact cuts_attributes.cut legible alsoLegible ending.1 alsoEnding.1 same

theorem cuts_body :
    Cuts bodyText (fun declaration => (declaration.metaEntries, declaration.attributes)) Legible
      Ending := by
  constructor
  intro first second rest others legible alsoLegible ending alsoEnding same
  obtain ⟨word, tail, spelled, parted, shape, marked, bare⟩ := bodyText_opening legible rest
  obtain ⟨other, alsoTail, alsoSpelled, alsoParted, alsoShape, alsoMarked, alsoBare⟩ :=
    bodyText_opening alsoLegible others
  have openings : word.toList ++ tail = other.toList ++ alsoTail := by
    simpa using shape.symm.trans (same.trans alsoShape)
  obtain ⟨_, rfl⟩ := cuts_nameParts.cut spelled.parts alsoSpelled.parts parted alsoParted openings
  -- Both bodies open alike, so they are of the same one of the three kinds.
  have sameMeta := marked.symm.trans alsoMarked
  have sameEmpty := bare.symm.trans alsoBare
  by_cases plain : first.metaEntries = []
  · have alsoPlain : second.metaEntries = [] := by simpa [plain] using sameMeta
    by_cases empty : first.attributes = []
    · have alsoEmpty : second.attributes = [] := (sameEmpty.mp ⟨plain, empty⟩).2
      rw [bodyText_pass plain empty, bodyText_pass alsoPlain alsoEmpty,
        List.append_cancel_left_eq] at same
      exact ⟨by rw [plain, alsoPlain, empty, alsoEmpty], same⟩
    · have alsoFilled : second.attributes ≠ [] := fun none =>
        empty (sameEmpty.mpr ⟨alsoPlain, none⟩).2
      rw [bodyText_attributes plain empty, bodyText_attributes alsoPlain alsoFilled] at same
      obtain ⟨attributes, left⟩ := cuts_attributes.cut legible.attributes alsoLegible.attributes
        ending.1 alsoEnding.1 same
      exact ⟨Prod.ext (plain.trans alsoPlain.symm) attributes, left⟩
  · have follows : ∀ attributes rest, Ending rest →
        ¬ [' '] <+: gap attributes ++ (attributesText attributes ++ rest) := by
      intro attributes rest ending
      cases attributes with
      | nil => exact ending.1
      | cons assignment attributes => simp [gap]
    simp only [bodyText_meta plain, bodyText_meta (sameMeta.mp plain), List.append_assoc,
      List.append_cancel_left_eq] at same
    obtain ⟨entries, tails⟩ := cuts_entries.cut legible.entries alsoLegible.entries
      (follows _ rest ending) (follows _ others alsoEnding) same
    rw [← List.append_assoc, ← List.append_assoc] at tails
    obtain ⟨attributes, left⟩ := cuts_gap.cut legible.attributes alsoLegible.attributes ending
      alsoEnding tails
    exact ⟨Prod.ext entries attributes, left⟩

theorem bodyText_noQuote {declaration : ClassDeclaration} (legible : Legible declaration)
    (rest : List Char) : ¬ [' ', ' ', '\x27'] <+: bodyText declaration ++ rest := by
  obtain ⟨word, tail, spelled, _, shape, _⟩ := bodyText_opening legible rest
  have parts := spelled.parts
  cases letters : word.toList with
  | nil => exact absurd (String.toList_eq_nil_iff.mp letters) spelled.ne_empty
  | cons c letters' =>
      have part := parts c (by simp [letters])
      rw [shape, letters]
      simp only [List.cons_append, List.nil_append, List.cons_prefix_cons, true_and]
      rintro ⟨rfl, _⟩
      exact absurd part (by decide)

theorem cuts_class :
    Cuts (fun declaration : ClassDeclaration => declaration.render.toList) shown Legible
      Ending := by
  constructor
  intro first second rest others legible alsoLegible ending alsoEnding same
  have shape : ∀ (declaration : ClassDeclaration) (rest : List Char),
      declaration.render.toList ++ rest = "class ".toList ++ (declaration.name.toList ++
        ('(' :: (declaration.base.toList ++ (')' :: ':' :: '\n' ::
          ((docstringText declaration.description).toList ++
            (bodyText declaration ++ rest)))))) := by
    intro declaration rest
    simp [render_shape]
  rw [shape, shape, List.append_cancel_left_eq] at same
  obtain ⟨name, afterName⟩ := cuts_nameParts.cut legible.name.parts alsoLegible.name.parts
    (parted_cons (by decide) _) (parted_cons (by decide) _) same
  rw [List.cons.injEq] at afterName
  obtain ⟨base, afterBase⟩ := cuts_nameParts.cut legible.base.parts alsoLegible.base.parts
    (parted_cons (by decide) _) (parted_cons (by decide) _) afterName.2
  simp only [List.cons.injEq, true_and] at afterBase
  obtain ⟨description, afterDescription⟩ := cuts_docstring.cut legible.described
    alsoLegible.described (bodyText_noQuote legible rest) (bodyText_noQuote alsoLegible others)
    afterBase
  obtain ⟨body, left⟩ := cuts_body.cut legible alsoLegible ending alsoEnding afterDescription
  obtain ⟨entries, attributes⟩ := Prod.mk.inj body
  refine ⟨?_, left⟩
  cases first
  cases second
  simp only [shown, ClassDeclaration.mk.injEq]
  exact ⟨name, base, description, entries, attributes⟩

end Classes

section Modules

structure LegibleWiring (wiring : Wiring) : Prop where
  query : Spelled wiring.query
  mutation : ∀ name ∈ wiring.mutation, Spelled name
  subscription : ∀ name ∈ wiring.subscription, Spelled name

structure LegibleModule (document : ClassModule) : Prop where
  imports : document.imports ≠ [] ∧ ∀ symbol ∈ document.imports, Spelled symbol
  classes : document.classes ≠ [] ∧ ∀ declaration ∈ document.classes, Legible declaration
  schema : ∀ wiring ∈ document.schema, LegibleWiring wiring

theorem cuts_root (keyword : String) :
    Cuts (fun type => (rootText keyword type).toList) id (fun type => ∀ name ∈ type, Spelled name)
      (fun rest => Parted rest ∧ ¬ ',' :: ' ' :: keyword.toList <+: rest) := by
  have name : Cuts String.toList id Spelled Parted :=
    cuts_nameParts.comap id id Spelled (fun _ spelled => spelled.parts) (fun _ _ _ _ same => same)
  have within : ∀ rest, ',' :: ' ' :: keyword.toList <+: rest → Parted rest := by
    rintro _ ⟨rest, rfl⟩
    exact parted_cons (by decide) _
  have cuts := (name.after ((',' :: ' ' :: keyword.toList) ++ ['='])).optional
    (',' :: ' ' :: keyword.toList) (fun _ _ rest => by simp) within
  rw [Option.map_id] at cuts
  apply cuts.congr
  intro type spelled
  cases type with
  | none => rfl
  | some name => simp [rootText, present_some (spelled name rfl).ne_empty]

theorem rootText_parted (keyword : String) (type : Option String) {rest : List Char}
    (parted : Parted rest) : Parted ((rootText keyword type).toList ++ rest) := by
  unfold rootText
  split
  · exact parted
  · rw [String.toList_append, String.toList_append, String.toList_append]
    exact parted_cons (by decide) _

theorem wiring_shape (wiring : Wiring) (rest : List Char) :
    wiring.render.toList ++ rest = "\nschema = Schema(query=".toList ++
      (wiring.query.toList ++ ((rootText "mutation" wiring.mutation).toList ++
        ((rootText "subscription" wiring.subscription).toList ++ (')' :: '\n' :: rest)))) := by
  have closing : ")\n".toList ++ rest = ')' :: '\n' :: rest := rfl
  unfold Wiring.render
  rw [String.toList_append, String.toList_append, String.toList_append, String.toList_append,
    List.append_assoc, List.append_assoc, List.append_assoc, List.append_assoc, closing]

theorem wiring_opening (wiring : Wiring) (rest : List Char) :
    ['\n', 's'] <+: wiring.render.toList ++ rest := by
  rw [wiring_shape]
  exact ⟨_, rfl⟩

theorem cuts_wiring :
    Cuts (fun wiring : Wiring => wiring.render.toList) id LegibleWiring (fun _ => True) := by
  constructor
  intro first second rest others legible alsoLegible _ _ same
  -- A root type ends at a comma or at the bracket, and the keyword after it tells which it is.
  have ended : ∀ rest, Parted (')' :: '\n' :: rest) := fun rest => parted_cons (by decide) _
  have noSubscription : ∀ rest, ¬ ',' :: ' ' :: "subscription".toList <+: ')' :: '\n' :: rest := by
    intro rest
    simp
  have noMutation : ∀ type rest, ¬ ',' :: ' ' :: "mutation".toList <+:
      (rootText "subscription" type).toList ++ (')' :: '\n' :: rest) := by
    intro type rest
    unfold rootText
    split <;> simp
  rw [wiring_shape, wiring_shape, List.append_cancel_left_eq] at same
  obtain ⟨query, same⟩ := cuts_nameParts.cut legible.query.parts alsoLegible.query.parts
    (rootText_parted _ _ (rootText_parted _ _ (ended rest)))
    (rootText_parted _ _ (rootText_parted _ _ (ended others))) same
  obtain ⟨mutation, same⟩ := (cuts_root "mutation").cut legible.mutation alsoLegible.mutation
    ⟨rootText_parted _ _ (ended rest), noMutation _ rest⟩
    ⟨rootText_parted _ _ (ended others), noMutation _ others⟩ same
  obtain ⟨subscription, same⟩ := (cuts_root "subscription").cut legible.subscription
    alsoLegible.subscription ⟨ended rest, noSubscription rest⟩ ⟨ended others, noSubscription others⟩
    same
  simp only [List.cons.injEq, true_and] at same
  refine ⟨?_, same⟩
  cases first
  cases second
  simp only [id, Wiring.mk.injEq]
  exact ⟨query, mutation, subscription⟩

def wiringText (schema : Option Wiring) : List Char :=
  ((schema.map Wiring.render).getD "").toList

theorem cuts_wiringText :
    Cuts wiringText id (fun schema => ∀ wiring ∈ schema, LegibleWiring wiring)
      (fun rest => ¬ ['\n', 's'] <+: rest) := by
  have cuts := cuts_wiring.optional ['\n', 's'] (fun wiring _ => wiring_opening wiring)
    (fun _ _ => trivial)
  simp only [Option.map_id, true_and] at cuts
  apply cuts.congr
  intro schema _
  cases schema <;> simp [wiringText]

theorem wiringText_ending (schema : Option Wiring) :
    Ending (wiringText schema) ∧ ¬ ['\n', 'c'] <+: wiringText schema := by
  cases schema with
  | none => simp [Ending, wiringText]
  | some wiring =>
      obtain ⟨tail, opening⟩ := wiring_opening wiring []
      rw [List.append_nil] at opening
      simp [Ending, wiringText, ← opening]

theorem cuts_classes :
    Cuts (fun classes : List ClassDeclaration =>
        ['\n'].intercalate (classes.map fun declaration => declaration.render.toList))
      (List.map shown)
      (fun classes => classes ≠ [] ∧ ∀ declaration ∈ classes, Legible declaration)
      (fun rest => Ending rest ∧ ¬ ['\n', 'c'] <+: rest) := by
  apply cuts_class.intercalate
  · intro declaration _ rest
    simp [ClassDeclaration.render]
  · rintro _ ⟨rest, rfl⟩
    simp [Ending]

/-- Two legible modules with the same text agree on everything but the descriptions, and
these are written alike. -/
theorem legible_render_injective {first second : ClassModule} (legible : LegibleModule first)
    (alsoLegible : LegibleModule second) (framework : first.framework = second.framework)
    (same : first.render = second.render) :
    first.imports = second.imports ∧ first.classes.map shown = second.classes.map shown ∧
      first.schema = second.schema := by
  have shape : ∀ document : ClassModule, document.classes ≠ [] →
      document.render.toList = ("from " ++ document.framework ++ " import ").toList ++
        ([',', ' '].intercalate (document.imports.map String.toList) ++ ('\n' :: '\n' ::
          (['\n'].intercalate (document.classes.map fun declaration => declaration.render.toList) ++
            wiringText document.schema))) := by
    intro document filled
    have notEmpty : document.classes.isEmpty = false := by simpa using filled
    simp [ClassModule.render, notEmpty, importText, wiringText, Function.comp_def]
  have names : ∀ document : ClassModule, LegibleModule document →
      document.imports ≠ [] ∧ ∀ symbol ∈ document.imports, NameParts symbol := by
    intro document legible
    exact ⟨legible.imports.1, fun symbol listed => (legible.imports.2 symbol listed).parts⟩
  have afterImports : ∀ rest, Parted ('\n' :: rest) ∧ ¬ [','] <+: '\n' :: rest := by
    intro rest
    exact ⟨parted_cons (by decide) _, by simp⟩
  have texts := congrArg String.toList same
  rw [shape first legible.classes.1, shape second alsoLegible.classes.1, framework,
    List.append_cancel_left_eq] at texts
  obtain ⟨imports, texts⟩ := cuts_joined.cut (names first legible) (names second alsoLegible)
    (afterImports _) (afterImports _) texts
  simp only [List.cons.injEq, true_and] at texts
  obtain ⟨classes, texts⟩ := cuts_classes.cut legible.classes alsoLegible.classes
    (wiringText_ending first.schema) (wiringText_ending second.schema) texts
  obtain ⟨wiring, _⟩ := cuts_wiringText.cut legible.schema alsoLegible.schema
    (show ¬ ['\n', 's'] <+: [] by simp) (show ¬ ['\n', 's'] <+: [] by simp) (by simpa using texts)
  exact ⟨imports, classes, wiring⟩

end Modules

end SchemaClasses.Output

namespace SchemaClasses.Build

open Schema Naming Output

theorem frameworkSymbols_spelled : ∀ symbol ∈ frameworkSymbols, Spelled symbol := by decide

theorem legible_attribute {settings : Settings} {body : TypeBody} {assignment : Attribute}
    (listed : assignment ∈ writtenAttributes settings body) : LegibleAttribute assignment := by
  -- Of a line feed in a description only its escape is written.
  have written : WrittenIn (· ≠ '\n') assignment.value.toList := by
    apply writtenIn_value listed
    intro member _
    exact ⟨fun _ _ _ _ _ noFeed => noFeed, fun _ _ _ _ _ _ _ noFeed => noFeed⟩
  refine ⟨?_, written.not_mem (by decide) (by decide) (by simp)⟩
  rcases mem_writtenAttributes.mp listed with ⟨index, value, _, rfl⟩ | ⟨member, _, rfl⟩
  · exact safeIdentifier_spelled value.spelled
  · exact safeIdentifier_spelled (snakeCase_spelled member.name_spelled)

theorem legible_class (settings : Settings) (definition : TypeDefinition) :
    Legible (writtenClass settings definition) where
  name := definition.name.spelled
  base := frameworkSymbols_spelled _ (baseOf_framework definition.body.kind)
  described := by
    intro text given
    simp only [writtenClass, Settings.described] at given
    split at given
    · rintro rfl
      exact absurd (Option.filter_eq_some_iff.mp given).2 (by decide)
    · cases given
  entries := by
    intro entry listed
    obtain ⟨key, filled, names⟩ := metaEntriesOf_spec listed
    have keys : ∀ key ∈ ["interfaces", "types"], Spelled key := by decide
    refine ⟨keys entry.1 (by simpa using key), filled, ?_⟩
    rw [names]
    intro name member
    obtain ⟨type, _, rfl⟩ := List.mem_map.mp member
    exact type.spelled
  attributes := fun _ listed => legible_attribute listed

theorem legible_module {settings : Settings} {document : Document}
    (filled : typeDefinitions document ≠ []) : LegibleModule (writtenModule settings document) where
  imports := ⟨imports_ne_nil filled,
    fun symbol imported => frameworkSymbols_spelled symbol (imports_framework imported)⟩
  classes := by
    refine ⟨by simpa [writtenModule] using filled, ?_⟩
    intro declaration listed
    obtain ⟨definition, _, rfl⟩ := List.mem_map.mp listed
    exact legible_class settings definition
  schema := by
    intro wiring given
    have roots : (moduleContext settings document).Roots Spelled :=
      moduleContext_roots (by decide) (fun type _ => type.spelled)
        (fun definition _ => definition.name.spelled)
    obtain ⟨_, rfl⟩ :
        settings.wiring = true ∧ (moduleContext settings document).wiring = wiring := by
      simpa [writtenModule] using given
    exact ⟨roots.1, roots.2.1, roots.2.2⟩

/-- The text of a module that was built tells its imports, its classes and their bodies,
and its wiring, whatever the descriptions hold. Of the descriptions it tells how they are
written, and which of them are there. -/
theorem render_determines_module (firstSettings secondSettings : Settings)
    (firstDocument secondDocument : Document) (first second : ClassModule)
    (built : buildModule firstSettings firstDocument = .ok first)
    (alsoBuilt : buildModule secondSettings secondDocument = .ok second)
    (framework : firstSettings.framework = secondSettings.framework)
    (filled : first.classes ≠ []) (alsoFilled : second.classes ≠ [])
    (same : first.render = second.render) :
    first.imports = second.imports ∧ first.classes.map shown = second.classes.map shown ∧
      first.schema = second.schema := by
  obtain ⟨_, rfl⟩ := buildModule_ok_iff.mp built
  obtain ⟨_, rfl⟩ := buildModule_ok_iff.mp alsoBuilt
  have legible : LegibleModule (writtenModule firstSettings firstDocument) :=
    legible_module (by simpa [writtenModule] using filled)
  have alsoLegible : LegibleModule (writtenModule secondSettings secondDocument) :=
    legible_module (by simpa [writtenModule] using alsoFilled)
  exact legible_render_injective legible alsoLegible framework same

/-- A type whose description may look like the end of its docstring and another class. -/
def describedSchema (description : String) : Document :=
  [.type ⟨named "Query", some description, .object [named "Node"]
    [⟨named "id", some "a\n  b = 1", [], .leaf (named "Int")⟩]⟩]

/-- Two modules that are not the same, but have the same text. -/
theorem describedSchema_render :
    let first :=
      writtenModule {} (describedSchema "\x27\x27\x27\n\nclass Other(ObjectType):\n  \x27")
    let second :=
      writtenModule {} (describedSchema "\x27\x27\x27\n\nclass Other(ObjectType):\n  \x27 ")
    first ≠ second ∧ first.render = second.render ∧
      first.classes.map shown = second.classes.map shown ∧ first.schema = second.schema := by
  intro first second
  have same : first.render = second.render := by decide +kernel
  have built : ∀ description, buildModule {} (describedSchema description) =
      .ok (writtenModule {} (describedSchema description)) :=
    fun description => buildModule_eq fun _ _ member _ => member.admitted_of_open rfl
  have read := render_determines_module {} {} _ _ first second (built _) (built _) rfl
    (by decide +kernel) (by decide +kernel) same
  exact ⟨by decide +kernel, same, read.2⟩

end SchemaClasses.Build
