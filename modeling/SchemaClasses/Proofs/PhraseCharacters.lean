import SchemaClasses.Proofs.BuiltModule

/-!
The characters of written values: those of names, a few signs, and what descriptions
hold. Line ends of descriptions are escaped, so a value stands on one line.
-/

namespace SchemaClasses.Build

open Schema Naming Check Output

def signs : List Char := ['(', ')', ',', ' ', '=', ':', '\x7b', '\x7d', '\x27', '\\']

/-- The character belongs to a name, is a sign, or is allowed besides. -/
def Written (allowed : Char → Prop) (c : Char) : Prop :=
  isNamePart c = true ∨ c ∈ signs ∨ allowed c

def WrittenIn (allowed : Char → Prop) (text : List Char) : Prop :=
  ∀ c ∈ text, Written allowed c

section Texts

variable {allowed : Char → Prop}

@[simp] theorem writtenIn_nil : WrittenIn allowed [] := by simp [WrittenIn]

@[simp] theorem writtenIn_cons (c : Char) (rest : List Char) :
    WrittenIn allowed (c :: rest) ↔ Written allowed c ∧ WrittenIn allowed rest := by
  simp [WrittenIn]

@[simp] theorem writtenIn_append (first second : List Char) :
    WrittenIn allowed (first ++ second) ↔ WrittenIn allowed first ∧ WrittenIn allowed second := by
  simp only [WrittenIn, List.mem_append]
  constructor
  · intro both
    exact ⟨fun c member => both c (.inl member), fun c member => both c (.inr member)⟩
  · rintro ⟨left, right⟩ c (member | member)
    · exact left c member
    · exact right c member

theorem written_sign {c : Char} (sign : c ∈ signs) : Written allowed c :=
  .inr (.inl sign)

theorem writtenIn_name {name : List Char} (spelled : spellsName name = true) :
    WrittenIn allowed name :=
  fun c member => .inl (namePart_of_spellsName spelled c member)

theorem writtenIn_numeral (n : Nat) : WrittenIn allowed (toString n).toList := by
  intro c member
  have digit := Layout.numeral_digits n c member
  exact .inl (by simp [isNamePart, Char.isAlphanum, digit])

/-- What is neither in names, nor a sign, nor allowed besides does not occur. -/
theorem WrittenIn.not_mem {text : List Char} (written : WrittenIn allowed text) {c : Char}
    (noPart : isNamePart c = false) (noSign : c ∉ signs) (forbidden : ¬ allowed c) : c ∉ text := by
  intro member
  rcases written c member with part | sign | other
  · simp [noPart] at part
  · exact noSign sign
  · exact forbidden other

theorem writtenIn_joined {pieces : List (List Char)}
    (each : ∀ piece ∈ pieces, WrittenIn allowed piece) :
    WrittenIn allowed ([',', ' '].intercalate pieces) := by
  intro c member
  rcases mem_intercalate member with between | ⟨piece, listed, inside⟩
  · exact written_sign (of_listed (· ∈ signs) (by decide) c between)
  · exact each piece listed c inside

theorem writtenIn_quoted {text : String}
    (each : ∀ c ∈ text.toList, c ≠ '\r' → c ≠ '\n' → Written allowed c) :
    WrittenIn allowed (Literal.quoted text).toList := by
  have quote : Written allowed '\x27' := written_sign (by decide)
  have escaped : WrittenIn allowed (text.toList.flatMap Literal.escapeChar) := by
    intro c member
    obtain ⟨original, inside, escape⟩ := List.mem_flatMap.mp member
    have known : c ∈ ['\\', '\x27', 'r', 'n'] ∨
        c = original ∧ original ≠ '\r' ∧ original ≠ '\n' := by
      unfold Literal.escapeChar at escape
      grind
    rcases known with fixed | ⟨rfl, noReturn, noFeed⟩
    · have all : ∀ d ∈ ['\\', '\x27', 'r', 'n'], isNamePart d = true ∨ d ∈ signs :=
        of_listed (fun d => isNamePart d = true ∨ d ∈ signs) (by decide)
      exact (all c fixed).imp_right .inl
    · exact each c inside noReturn noFeed
  simp [Literal.quoted, quote, escaped]

theorem writtenIn_quoted_name {name : String} (spelled : spellsName name.toList = true) :
    WrittenIn allowed (Literal.quoted name).toList :=
  writtenIn_quoted fun c member _ _ => writtenIn_name spelled c member

end Texts

section Phrases

variable {allowed : Char → Prop}

namespace Phrase

/-- The text of the phrase is made of written characters. -/
def Plain (allowed : Char → Prop) (phrase : Phrase) : Prop :=
  WrittenIn allowed phrase.text.toList

theorem plain_keyword {entry : String × Phrase} (spelled : spellsName entry.1.toList = true)
    (value : entry.2.Plain allowed) : (keyword entry).Plain allowed := by
  have equals : Written allowed '=' := written_sign (by decide)
  simpa [Plain, keyword, equals, writtenIn_name spelled] using value

theorem plain_call {head : String} {arguments : List Phrase}
    (spelled : spellsName head.toList = true)
    (each : ∀ argument ∈ arguments, argument.Plain allowed) :
    (call head arguments).Plain allowed := by
  have opener : Written allowed '(' := written_sign (by decide)
  have closer : Written allowed ')' := written_sign (by decide)
  have inside : WrittenIn allowed ([',', ' '].intercalate
      (arguments.map fun argument => argument.text.toList)) := by
    apply writtenIn_joined
    intro piece member
    obtain ⟨argument, listed, rfl⟩ := List.mem_map.mp member
    exact each argument listed
  simp only [Plain, call, String.toList_append, String.toList_intercalate, List.map_map,
    writtenIn_append]
  exact ⟨⟨⟨writtenIn_name spelled, by simp [opener]⟩, inside⟩, by simp [closer]⟩

theorem plain_mapping {entries : Entries Phrase}
    (spelled : ∀ entry ∈ entries, spellsName entry.1.toList = true)
    (each : ∀ entry ∈ entries, entry.2.Plain allowed) : (mapping entries).Plain allowed := by
  have opener : Written allowed '\x7b' := written_sign (by decide)
  have closer : Written allowed '\x7d' := written_sign (by decide)
  have colon : Written allowed ':' := written_sign (by decide)
  have space : Written allowed ' ' := written_sign (by decide)
  have inside : WrittenIn allowed ([',', ' '].intercalate (entries.map fun entry =>
      (Literal.quoted entry.1).toList ++ ':' :: ' ' :: entry.2.text.toList)) := by
    apply writtenIn_joined
    intro piece member
    obtain ⟨entry, listed, rfl⟩ := List.mem_map.mp member
    rw [writtenIn_append, writtenIn_cons, writtenIn_cons]
    exact ⟨writtenIn_quoted_name (spelled entry listed), colon, space, each entry listed⟩
  have text : (mapping entries).text.toList = '\x7b' :: ([',', ' '].intercalate
      (entries.map fun entry =>
        (Literal.quoted entry.1).toList ++ ':' :: ' ' :: entry.2.text.toList) ++ ['\x7d']) := by
    simp [mapping, Literal.mapping, Function.comp_def]
  rw [Plain, text, writtenIn_cons, writtenIn_append]
  exact ⟨opener, inside, by simp [closer]⟩

end Phrase

theorem plain_type (type : TypeRef) : (typePhrase type).Plain allowed := by
  induction type with
  | leaf name => exact writtenIn_name name.spelled
  | list item ih => exact Phrase.plain_call (by decide) (by simpa using ih)
  | nonNull item ih => exact Phrase.plain_call (by decide) (by simpa using ih)

theorem Declarator.plain_phrase {declarator : Declarator} {keywords : List (String × Phrase)}
    (head : spellsName declarator.head.toList = true)
    (spelled : ∀ keyword ∈ keywords, spellsName keyword.1.toList = true)
    (values : ∀ keyword ∈ keywords, keyword.2.Plain allowed) :
    (declarator.phrase keywords).Plain allowed := by
  apply Phrase.plain_call head
  intro argument member
  rcases List.mem_append.mp member with first | later
  · obtain ⟨type, _, rfl⟩ := List.mem_map.mp first
    exact plain_type type
  · obtain ⟨keyword, listed, rfl⟩ := List.mem_map.mp later
    exact Phrase.plain_keyword (spelled keyword listed) (values keyword listed)

/-- Apart from line ends the description has allowed characters only. -/
def Allows (allowed : Char → Prop) (description : Option String) : Prop :=
  ∀ text ∈ description, ∀ c ∈ text.toList, c ≠ '\r' → c ≠ '\n' → allowed c

theorem plain_description {settings : Settings} {description : Option String} {text : String}
    (allows : Allows allowed description) (given : text ∈ settings.described description) :
    (Phrase.quoted text).Plain allowed := by
  have known : text ∈ description := by
    unfold Settings.described at given
    split at given
    · exact (Option.filter_eq_some_iff.mp given).1
    · cases given
  exact writtenIn_quoted fun c member noReturn noFeed =>
    .inr (.inr (allows text known c member noReturn noFeed))

theorem plain_argument {settings : Settings} {reserved : List String} {argument : InputValue}
    (allows : Allows allowed argument.description) :
    (argumentPhrase settings reserved argument).Plain allowed := by
  apply Declarator.plain_phrase (argument_head_spelled reserved argument)
  · intro entry member
    obtain ⟨text, _, rfl⟩ := descriptionPhrases_spec member
    exact ownWords_spelled "description" (by decide)
  · intro entry member
    obtain ⟨text, given, rfl⟩ := descriptionPhrases_spec member
    exact plain_description allows given

theorem Member.plain_phrase {settings : Settings} {member : Member}
    (own : Allows allowed member.description)
    (arguments : ∀ argument ∈ member.arguments, Allows allowed argument.description) :
    (member.phrase settings).Plain allowed := by
  have values : ∀ entry ∈ member.keywordPhrases settings, entry.2.Plain allowed := by
    intro entry listed
    rcases mem_keywordPhrases listed with ⟨name, given, rfl⟩ | ⟨text, given, rfl⟩ |
      ⟨argument, direct, rfl⟩ | ⟨mapped, _, rfl, inside⟩
    · exact writtenIn_quoted_name (explicitName_eq given ▸ member.name_spelled)
    · exact plain_description own given
    · exact plain_argument (arguments argument (List.mem_filter.mp direct).1)
    · apply Phrase.plain_mapping
      · intro inner listed
        obtain ⟨argument, _, rfl⟩ := inside inner listed
        exact argument.name.spelled
      · intro inner listed
        obtain ⟨argument, given, rfl⟩ := inside inner listed
        exact plain_argument (arguments argument (List.mem_filter.mp given).1)
  exact Declarator.plain_phrase member.head_spelled (fun entry => keywordPhrases_spelled) values

/-- The value of every attribute, a number or a phrase. -/
theorem writtenIn_value {settings : Settings} {body : TypeBody} {assignment : Attribute}
    (listed : assignment ∈ writtenAttributes settings body)
    (allows : ∀ member ∈ members body, Allows allowed member.description ∧
      ∀ argument ∈ member.arguments, Allows allowed argument.description) :
    WrittenIn allowed assignment.value.toList := by
  rcases mem_writtenAttributes.mp listed with ⟨index, value, _, rfl⟩ | ⟨member, inside, rfl⟩
  · exact writtenIn_numeral index
  · obtain ⟨own, arguments⟩ := allows member inside
    exact Member.plain_phrase own arguments

end Phrases

end SchemaClasses.Build
