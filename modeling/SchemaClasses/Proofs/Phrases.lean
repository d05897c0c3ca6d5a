import Mathlib.Data.List.Nodup
import SchemaClasses.Build.Declare
import SchemaClasses.Proofs.OrderedEntries
import SchemaClasses.Proofs.TokenLayout

/-!
What the constructions write. A phrase is a text together with the marks that it is read
as. Every value of a member is a phrase put together from the schema, and a construction
that is not refused yields the text of the phrase and the symbols of its calls.
-/

namespace SchemaClasses.Build

open Schema Naming Output Check

section Recorded

/-! Constructions that are known to succeed. -/

variable {α β : Type}

namespace Recorded

@[simp] theorem pure_eq (value : α) : (pure value : Recorded α) = ⟨[], .ok value⟩ := rfl

@[simp] theorem bind_ok (notes : List Note) (value : α) (next : α → Recorded β) :
    ((⟨notes, .ok value⟩ : Recorded α) >>= next) =
      ⟨notes ++ (next value).notes, (next value).outcome⟩ := rfl

@[simp] theorem uses_eq (symbol : String) : uses symbol = ⟨[.uses symbol], .ok ()⟩ := rfl

@[simp] theorem record_eq (notes : List Note) : record notes = ⟨notes, .ok ()⟩ := rfl

@[simp] theorem ofExcept_eq (outcome : Except Refusal α) : ofExcept outcome = ⟨[], outcome⟩ := rfl

theorem ok_of_bind_ok {first : Recorded α} {next : α → Recorded β} {result : β}
    (done : (first >>= next).outcome = .ok result) :
    ∃ value, first.outcome = .ok value ∧ (next value).outcome = .ok result := by
  obtain ⟨notes, outcome⟩ := first
  cases outcome with
  | error refusal => cases done
  | ok value => exact ⟨value, rfl, done⟩

theorem each_eq {construct : α → Recorded β} {notes : α → List Note} {value : α → β}
    {items : List α} (known : ∀ item ∈ items, construct item = ⟨notes item, .ok (value item)⟩) :
    each construct items = ⟨items.flatMap notes, .ok (items.map value)⟩ := by
  induction items with
  | nil => rfl
  | cons item rest ih =>
      have others := ih fun other member => known other (by simp [member])
      simp [each, known item (by simp), others]

theorem each_ok {construct : α → Recorded β} {items : List α} {values : List β}
    (done : (each construct items).outcome = .ok values) :
    ∀ item ∈ items, ∃ value, (construct item).outcome = .ok value := by
  induction items generalizing values with
  | nil => simp
  | cons item rest ih =>
      obtain ⟨value, first, more⟩ := ok_of_bind_ok done
      obtain ⟨others, later, _⟩ := ok_of_bind_ok more
      intro known member
      rcases List.mem_cons.mp member with rfl | listed
      · exact ⟨value, first⟩
      · exact ih later known listed

end Recorded

end Recorded

section Phrases

structure Phrase where
  text : String
  marks : List Mark

namespace Phrase

def word (name : String) : Phrase :=
  ⟨name, [.word name]⟩

def quoted (text : String) : Phrase :=
  ⟨Literal.quoted text, [.text (text.toList.flatMap Literal.escapeChar)]⟩

def keyword (entry : String × Phrase) : Phrase :=
  ⟨entry.1 ++ "=" ++ entry.2.text, keywordMarks (entry.1, entry.2.marks)⟩

def call (head : String) (arguments : List Phrase) : Phrase :=
  ⟨head ++ "(" ++ ", ".intercalate (arguments.map text) ++ ")",
    callMarks head (arguments.map marks)⟩

def mapping (entries : Entries Phrase) : Phrase where
  text := Literal.mapping (entries.map fun entry => (entry.1, entry.2.text))
  marks := mappingMarks (entries.map fun entry =>
    (entry.1.toList.flatMap Literal.escapeChar, entry.2.marks))

/-- The text of the phrase is read as its marks. -/
def Sound (phrase : Phrase) (depth : Nat) : Prop :=
  Layout.Lexes phrase.text.toList phrase.marks depth

variable {depth : Nat}

theorem sound_word {name : String} (spelled : spellsName name.toList = true) :
    (word name).Sound depth :=
  (lexes_word rfl spelled).mono (Nat.zero_le depth)

theorem sound_quoted (text : String) : (quoted text).Sound depth :=
  (Layout.lexes_quoted text).mono (Nat.zero_le depth)

theorem sound_keyword {entry : String × Phrase} (spelled : spellsName entry.1.toList = true)
    (value : entry.2.Sound depth) : (keyword entry).Sound depth := by
  simpa [Sound, keyword] using lexes_keyword spelled value

theorem sound_call {head : String} {arguments : List Phrase}
    (spelled : spellsName head.toList = true)
    (each : ∀ argument ∈ arguments, argument.Sound depth) :
    (call head arguments).Sound (depth + 1) := by
  let pieces := arguments.map fun argument => (argument.text.toList, argument.marks)
  have lexed : ∀ piece ∈ pieces, Layout.Lexes piece.1 piece.2 depth := by
    intro piece member
    obtain ⟨argument, listed, rfl⟩ := List.mem_map.mp member
    exact each argument listed
  simpa [Sound, call, pieces, Function.comp_def] using lexes_call spelled pieces lexed

theorem sound_mapping {entries : Entries Phrase} (each : ∀ entry ∈ entries, entry.2.Sound depth) :
    (mapping entries).Sound (depth + 1) := by
  let pieces := entries.map fun entry =>
    ((Literal.quoted entry.1).toList ++ ':' :: ' ' :: entry.2.text.toList,
      entryMarks (entry.1.toList.flatMap Literal.escapeChar, entry.2.marks))
  have lexed : ∀ piece ∈ pieces, Layout.Lexes piece.1 piece.2 depth := by
    intro piece member
    obtain ⟨entry, listed, rfl⟩ := List.mem_map.mp member
    exact lexes_entry entry.1 (each entry listed)
  have enclosed := Layout.lexes_enclosed '\x7b' '\x7d' (by simp) (Layout.lexes_joined pieces lexed)
  simpa [Sound, mapping, Literal.mapping, mappingMarks, joined, pieces, Function.comp_def] using
    enclosed

end Phrase

end Phrases

section Types

/-! Types of a schema. -/

def wrappers {Leaf : Type} : TypeExpr Leaf → Nat
  | .leaf _ => 0
  | .list item => wrappers item + 1
  | .nonNull item => wrappers item + 1

def typePhrase : TypeRef → Phrase
  | .leaf name => .word name.text
  | .list item => .call "List" [typePhrase item]
  | .nonNull item => .call "NonNull" [typePhrase item]

def typeSymbols : TypeRef → List String
  | .leaf name => if isBuiltinScalar name.text then [name.text] else []
  | .list item => "List" :: typeSymbols item
  | .nonNull item => "NonNull" :: typeSymbols item

theorem sound_type (type : TypeRef) : (typePhrase type).Sound (wrappers type) := by
  induction type with
  | leaf name => exact Phrase.sound_word name.spelled
  | list item ih => exact Phrase.sound_call (by decide) (by simpa using ih)
  | nonNull item ih => exact Phrase.sound_call (by decide) (by simpa using ih)

theorem resolveType_tree (type : TypeRef) :
    resolveType (TypeRef.tree type) =
      ⟨(typeSymbols type).map .uses, .ok (typePhrase type).text⟩ := by
  induction type with
  | leaf name =>
      by_cases builtin : isBuiltinScalar name.text = true
      · simp [TypeRef.tree, TypeExpr.map, resolveType, typeSymbols, typePhrase, builtin,
          Phrase.word]
      · simp [TypeRef.tree, TypeExpr.map, resolveType, typeSymbols, typePhrase, builtin,
          Phrase.word]
  | list item ih =>
      simp only [TypeRef.tree, TypeExpr.map, resolveType] at ih ⊢
      rw [ih]
      simp [typeSymbols, typePhrase, Phrase.call]
  | nonNull item ih =>
      simp only [TypeRef.tree, TypeExpr.map, resolveType] at ih ⊢
      rw [ih]
      simp [typeSymbols, typePhrase, Phrase.call]

/-- The outermost call of a declaration, with the type that it is called on. -/
structure Declarator where
  head : String
  operand : Option TypeRef

/-- Words that the constructions write by themselves. -/
def ownWords : List String :=
  ["List", "NonNull", "Field", "InputField", "Argument", "name", "description", "args"]

theorem ownWords_spelled : ∀ word ∈ ownWords, spellsName word.toList = true := by decide

namespace Declarator

def outer (container : String) : TypeRef → Declarator
  | .leaf name =>
      if isBuiltinScalar name.text then ⟨name.text, none⟩ else ⟨container, some (.leaf name)⟩
  | .list item => ⟨"List", some item⟩
  | .nonNull item => ⟨"NonNull", some item⟩

def symbols (declarator : Declarator) : List String :=
  declarator.head :: declarator.operand.toList.flatMap typeSymbols

def phrase (declarator : Declarator) (keywords : List (String × Phrase)) : Phrase :=
  .call declarator.head (declarator.operand.toList.map typePhrase ++ keywords.map .keyword)

theorem sound_phrase {declarator : Declarator} {keywords : List (String × Phrase)} {depth : Nat}
    (head : spellsName declarator.head.toList = true)
    (operand : ∀ type ∈ declarator.operand, wrappers type ≤ depth)
    (spelled : ∀ keyword ∈ keywords, spellsName keyword.1.toList = true)
    (values : ∀ keyword ∈ keywords, keyword.2.Sound depth) :
    (declarator.phrase keywords).Sound (depth + 1) := by
  apply Phrase.sound_call head
  intro argument member
  rcases List.mem_append.mp member with first | later
  · obtain ⟨type, given, rfl⟩ := List.mem_map.mp first
    exact (sound_type type).mono (operand type (by simpa using given))
  · obtain ⟨keyword, listed, rfl⟩ := List.mem_map.mp later
    exact Phrase.sound_keyword (spelled keyword listed) (values keyword listed)

theorem outer_head_spelled {container : String} (spelled : spellsName container.toList = true)
    (type : TypeRef) : spellsName (outer container type).head.toList = true := by
  cases type with
  | leaf name =>
      by_cases builtin : isBuiltinScalar name.text = true
      · simpa [outer, builtin] using name.spelled
      · simpa [outer, builtin] using spelled
  | list item => exact ownWords_spelled "List" (by decide)
  | nonNull item => exact ownWords_spelled "NonNull" (by decide)

theorem outer_operand_wrappers {container : String} {type operand : TypeRef}
    (given : operand ∈ (outer container type).operand) : wrappers operand ≤ wrappers type := by
  cases type with
  | leaf name =>
      by_cases builtin : isBuiltinScalar name.text = true
      · simp [outer, builtin] at given
      · simp only [outer, builtin, Bool.false_eq_true, if_false, Option.mem_def,
          Option.some.injEq] at given
        simp [← given]
  | list item =>
      cases given
      exact Nat.le_succ _
  | nonNull item =>
      cases given
      exact Nat.le_succ _

end Declarator

def written (entry : String × Phrase) : Keyword :=
  ⟨entry.1, entry.2.text⟩

theorem trailing_keywords (first : String) (keywords : List Keyword) :
    first ++ trailing (renderKeywords keywords) =
      ", ".intercalate (first :: keywords.map Keyword.render) := by
  cases keywords with
  | nil => simp [renderKeywords, trailing]
  | cons keyword rest =>
      have filled : renderKeywords (keyword :: rest) ≠ "" := by
        intro empty
        have chars := congrArg String.toList empty
        cases rest <;> simp [renderKeywords, Keyword.render] at chars
      rw [trailing, if_neg (by simpa using filled), List.map_cons, String.intercalate_cons_cons]
      simp [renderKeywords, String.append_assoc]

theorem render_written (keywords : List (String × Phrase)) :
    (keywords.map written).map Keyword.render = (keywords.map Phrase.keyword).map Phrase.text := by
  simp [Keyword.render, written, Phrase.keyword]

theorem phrase_text (head : String) (operand : TypeRef) (keywords : List (String × Phrase)) :
    (Declarator.phrase ⟨head, some operand⟩ keywords).text =
      head ++ "(" ++ ((typePhrase operand).text ++
        trailing (renderKeywords (keywords.map written))) ++ ")" := by
  rw [trailing_keywords, render_written]
  rfl

theorem declareType_tree (container : String) (type : TypeRef) (keywords : List (String × Phrase)) :
    declareType (TypeRef.tree type) (renderKeywords (keywords.map written)) container =
      ⟨(Declarator.outer container type).symbols.map .uses,
        .ok ((Declarator.outer container type).phrase keywords).text⟩ := by
  cases type with
  | leaf name =>
      by_cases builtin : isBuiltinScalar name.text = true
      · have renders := render_written keywords
        rw [List.map_map, List.map_map] at renders
        simp [TypeRef.tree, TypeExpr.map, declareType, builtin, Declarator.outer,
          Declarator.symbols, Declarator.phrase, Phrase.call, renderKeywords, renders]
      · simp [TypeRef.tree, TypeExpr.map, declareType, builtin, Declarator.outer,
          Declarator.symbols, phrase_text, typePhrase, Phrase.word, typeSymbols,
          String.append_assoc]
  | list item =>
      have inner := resolveType_tree item
      simp only [TypeRef.tree] at inner
      simp only [TypeRef.tree, TypeExpr.map, declareType, inner]
      simp [Declarator.outer, Declarator.symbols, phrase_text, String.append_assoc]
  | nonNull item =>
      have inner := resolveType_tree item
      simp only [TypeRef.tree] at inner
      simp only [TypeRef.tree, TypeExpr.map, declareType, inner]
      simp [Declarator.outer, Declarator.symbols, phrase_text, String.append_assoc]

end Types

section Arguments

/-! The arguments of a field, next to keywords whose names are taken. -/

def descriptionPhrases (settings : Settings) (description : Option String) :
    List (String × Phrase) :=
  (settings.described description).toList.map fun text => ("description", .quoted text)

theorem descriptionKeyword_eq (settings : Settings) (description : Option String) :
    descriptionKeyword settings description =
      (descriptionPhrases settings description).map written := by
  unfold descriptionKeyword descriptionPhrases
  cases settings.described description <;> rfl

/-- Within the `args` mapping every type is passed on as it is. -/
def argumentDeclarator (reserved : List String) (argument : InputValue) : Declarator :=
  if isColliding argument.name.text reserved then ⟨"Argument", some argument.type⟩
  else .outer "Argument" argument.type

def argumentPhrase (settings : Settings) (reserved : List String) (argument : InputValue) :
    Phrase :=
  (argumentDeclarator reserved argument).phrase (descriptionPhrases settings argument.description)

def argumentEntry (settings : Settings) (reserved : List String) (argument : InputValue) :
    String × Phrase :=
  (argument.name.text, argumentPhrase settings reserved argument)

def directArguments (reserved : List String) (arguments : List InputValue) : List InputValue :=
  arguments.filter fun argument => !isColliding argument.name.text reserved

def mappedArguments (reserved : List String) (arguments : List InputValue) : List InputValue :=
  arguments.filter fun argument => isColliding argument.name.text reserved

def argsPhrases (mapped : Entries Phrase) : List (String × Phrase) :=
  if mapped.isEmpty then [] else [("args", .mapping mapped)]

theorem argsKeyword_eq (mapped : Entries Phrase) :
    argsKeyword (mapped.map fun entry => (entry.1, entry.2.text)) =
      (argsPhrases mapped).map written := by
  cases mapped <;> simp [argsKeyword, argsPhrases, written, Phrase.mapping]

theorem argumentDeclaration_eq (settings : Settings) (reserved : List String)
    (argument : InputValue) (free : isColliding argument.name.text reserved = false) :
    argumentDeclaration settings argument =
      ⟨(argumentDeclarator reserved argument).symbols.map .uses,
        .ok (argumentPhrase settings reserved argument).text⟩ := by
  rw [argumentDeclaration, descriptionKeyword_eq, declareType_tree]
  simp [argumentDeclarator, argumentPhrase, free]

theorem mappedDeclaration_eq (settings : Settings) (reserved : List String)
    (argument : InputValue) (taken : isColliding argument.name.text reserved = true) :
    mappedDeclaration settings argument =
      ⟨(argumentDeclarator reserved argument).symbols.map .uses,
        .ok (argumentPhrase settings reserved argument).text⟩ := by
  simp [mappedDeclaration, resolveType_tree, argumentDeclarator, argumentPhrase, taken,
    Declarator.symbols, phrase_text, descriptionKeyword_eq, String.append_assoc]

/-- Arguments that are not refused are written one after another. -/
theorem argumentKeywords_eq {settings : Settings} {field : String} (reserved : List String)
    {arguments : List InputValue} (mapped : Entries Phrase)
    (admitted : ∀ argument ∈ arguments, checkArgument settings field argument = .ok ()) :
    argumentKeywords settings field reserved arguments
        (mapped.map fun entry => (entry.1, entry.2.text)) =
      ⟨(arguments.flatMap fun argument => (argumentDeclarator reserved argument).symbols).map .uses,
        .ok (((directArguments reserved arguments).map (argumentEntry settings reserved) ++
          argsPhrases (((mappedArguments reserved arguments).map
            (argumentEntry settings reserved)).foldl
              (fun entries entry => Entries.put entries entry.1 entry.2) mapped)).map
                written)⟩ := by
  -- The entries gathered so far are general, as a colliding argument is put among them.
  induction arguments generalizing mapped with
  | nil => simp [argumentKeywords, directArguments, mappedArguments, argsKeyword_eq]
  | cons argument rest ih =>
      have first := admitted argument (by simp)
      have others := fun mapped => ih mapped fun other member => admitted other (by simp [member])
      by_cases collides : isColliding argument.name.text reserved = true
      · have tail :=
          others (mapped.put argument.name.text (argumentPhrase settings reserved argument))
        rw [Entries.put_map] at tail
        simp only [argumentKeywords, Recorded.ofExcept_eq, first, Recorded.bind_ok, collides,
          mappedDeclaration_eq settings reserved argument collides, if_true, tail]
        simp [directArguments, mappedArguments, collides, argumentEntry]
      · have free : isColliding argument.name.text reserved = false := by simpa using collides
        simp only [argumentKeywords, Recorded.ofExcept_eq, first, Recorded.bind_ok, free,
          argumentDeclaration_eq settings reserved argument free, others mapped]
        simp [directArguments, mappedArguments, free, argumentEntry, written]

theorem checked_of_argumentKeywords {settings : Settings} {field : String} {reserved : List String}
    {arguments : List InputValue} {mapped : Entries String} {keywords : List Keyword}
    (done : (argumentKeywords settings field reserved arguments mapped).outcome = .ok keywords) :
    ∀ argument ∈ arguments, checkArgument settings field argument = .ok () := by
  induction arguments generalizing mapped keywords with
  | nil => simp
  | cons argument rest ih =>
      obtain ⟨checked, first, more⟩ := Recorded.ok_of_bind_ok done
      have others : ∀ other ∈ rest, checkArgument settings field other = .ok () := by
        by_cases collides : isColliding argument.name.text reserved = true
        · rw [if_pos collides] at more
          obtain ⟨value, _, later⟩ := Recorded.ok_of_bind_ok more
          exact ih later
        · rw [if_neg collides] at more
          obtain ⟨value, _, tail⟩ := Recorded.ok_of_bind_ok more
          obtain ⟨values, later, _⟩ := Recorded.ok_of_bind_ok tail
          exact ih later
      intro known member
      rcases List.mem_cons.mp member with rfl | listed
      · exact first
      · exact others known listed

theorem descriptionPhrases_spec {settings : Settings} {description : Option String}
    {entry : String × Phrase} (member : entry ∈ descriptionPhrases settings description) :
    ∃ text ∈ settings.described description, entry = ("description", .quoted text) := by
  obtain ⟨text, given, rfl⟩ := List.mem_map.mp member
  exact ⟨text, by simpa using given, rfl⟩

theorem argument_head_spelled (reserved : List String) (argument : InputValue) :
    spellsName (argumentDeclarator reserved argument).head.toList = true := by
  unfold argumentDeclarator
  split
  · exact ownWords_spelled "Argument" (by decide)
  · exact Declarator.outer_head_spelled (by decide) argument.type

theorem sound_argument {settings : Settings} {reserved : List String} {argument : InputValue}
    {depth : Nat} (bound : wrappers argument.type ≤ depth) :
    (argumentPhrase settings reserved argument).Sound (depth + 1) := by
  have descriptions : ∀ entry ∈ descriptionPhrases settings argument.description,
      spellsName entry.1.toList = true ∧ entry.2.Sound depth := by
    intro entry member
    obtain ⟨text, _, rfl⟩ := descriptionPhrases_spec member
    exact ⟨ownWords_spelled "description" (by decide), Phrase.sound_quoted text⟩
  have operand :
      ∀ type ∈ (argumentDeclarator reserved argument).operand, wrappers type ≤ depth := by
    intro type given
    unfold argumentDeclarator at given
    split at given
    · cases given
      exact bound
    · exact Nat.le_trans (Declarator.outer_operand_wrappers given) bound
  exact Declarator.sound_phrase (argument_head_spelled reserved argument) operand
    (fun entry member => (descriptions entry member).1)
    (fun entry member => (descriptions entry member).2)

end Arguments

section Members

namespace Member

def explicitName (member : Member) : Option String :=
  if needsExplicitName member.name then some member.name else none

def ownPhrases (settings : Settings) (member : Member) : List (String × Phrase) :=
  member.explicitName.toList.map (fun name => ("name", .quoted name)) ++
    descriptionPhrases settings member.description

/-- Names that the constructor's own keywords take. -/
def reserved (settings : Settings) (member : Member) : List String :=
  (member.ownPhrases settings).map Prod.fst

def direct (settings : Settings) (member : Member) : List InputValue :=
  directArguments (member.reserved settings) member.arguments

def mapped (settings : Settings) (member : Member) : List InputValue :=
  mappedArguments (member.reserved settings) member.arguments

def keywordPhrases (settings : Settings) (member : Member) : List (String × Phrase) :=
  let entry := argumentEntry settings (member.reserved settings)
  member.ownPhrases settings ++ (member.direct settings).map entry ++
    argsPhrases (Entries.ofPairs ((member.mapped settings).map entry))

def declarator (member : Member) : Declarator :=
  .outer member.container member.type

def phrase (settings : Settings) (member : Member) : Phrase :=
  member.declarator.phrase (member.keywordPhrases settings)

def symbols (settings : Settings) (member : Member) : List String :=
  (member.arguments.flatMap fun argument =>
    (argumentDeclarator (member.reserved settings) argument).symbols) ++ member.declarator.symbols

/-- None of the arguments is refused. -/
def Admitted (settings : Settings) (member : Member) : Prop :=
  ∀ argument ∈ member.arguments, checkArgument settings member.name argument = .ok ()

theorem ownKeywords_eq (settings : Settings) (member : Member) :
    member.ownKeywords settings = (member.ownPhrases settings).map written := by
  have named : nameKeyword member.name =
      (member.explicitName.toList.map fun name => ("name", Phrase.quoted name)).map written := by
    unfold nameKeyword explicitName
    split <;> rfl
  simp only [ownKeywords, ownPhrases, named, descriptionKeyword_eq, List.map_append]

theorem reserved_eq (settings : Settings) (member : Member) :
    (member.ownKeywords settings).map Keyword.name = member.reserved settings := by
  simp [ownKeywords_eq, reserved, written]

theorem keywords_eq {settings : Settings} {member : Member}
    (admitted : member.Admitted settings) :
    member.keywords settings =
      ⟨(member.arguments.flatMap fun argument =>
        (argumentDeclarator (member.reserved settings) argument).symbols).map .uses,
        .ok ((member.keywordPhrases settings).map written)⟩ := by
  have arguments := argumentKeywords_eq (member.reserved settings) [] admitted
  simp only [List.map_nil] at arguments
  simp only [Member.keywords, reserved_eq, arguments, Recorded.bind_ok]
  simp [ownKeywords_eq, keywordPhrases, direct, mapped, Entries.ofPairs]

/-- A member that is not refused becomes its phrase, and records the symbols of its calls. -/
theorem toAttribute_eq {settings : Settings} {member : Member}
    (admitted : member.Admitted settings) :
    member.toAttribute settings =
      ⟨(member.symbols settings).map .uses,
        .ok ⟨attributeName member.name, (member.phrase settings).text⟩⟩ := by
  simp [toAttribute, keywords_eq admitted, declareType_tree, symbols, phrase, declarator]

theorem admitted_of_toAttribute {settings : Settings} {member : Member} {result : Attribute}
    (done : (member.toAttribute settings).outcome = .ok result) : member.Admitted settings := by
  obtain ⟨keywords, first, _⟩ := Recorded.ok_of_bind_ok done
  obtain ⟨others, inner, _⟩ := Recorded.ok_of_bind_ok first
  exact checked_of_argumentKeywords inner

/-- Whatever the settings refuse, they refuse no argument if any type will do. -/
theorem admitted_of_open {settings : Settings} (member : Member)
    (any : settings.scalarArgumentsOnly = false) : member.Admitted settings := by
  intro argument _
  simp [checkArgument, any]
  rfl

def types (member : Member) : List TypeRef :=
  member.type :: member.arguments.map InputValue.type

theorem mem_keywordPhrases {settings : Settings} {member : Member} {entry : String × Phrase}
    (listed : entry ∈ member.keywordPhrases settings) :
    (∃ name ∈ member.explicitName, entry = ("name", .quoted name)) ∨
    (∃ text ∈ settings.described member.description, entry = ("description", .quoted text)) ∨
    (∃ argument ∈ member.direct settings,
      entry = argumentEntry settings (member.reserved settings) argument) ∨
    (∃ mapped, mapped ≠ [] ∧ entry = ("args", .mapping mapped) ∧ ∀ inner ∈ mapped,
      ∃ argument ∈ member.mapped settings,
        inner = argumentEntry settings (member.reserved settings) argument) := by
  simp only [keywordPhrases, ownPhrases, List.mem_append, List.mem_map, Option.mem_toList] at listed
  rcases listed with ((⟨name, given, rfl⟩ | described) | ⟨argument, direct, rfl⟩) | mapping
  · exact .inl ⟨name, given, rfl⟩
  · exact .inr (.inl (descriptionPhrases_spec described))
  · exact .inr (.inr (.inl ⟨argument, direct, rfl⟩))
  · unfold argsPhrases at mapping
    split at mapping
    · cases mapping
    · rename_i filled
      refine .inr (.inr (.inr ⟨_, by simpa using filled, by simpa using mapping, ?_⟩))
      intro inner member
      obtain ⟨argument, known, rfl⟩ := List.mem_map.mp (Entries.mem_ofPairs member)
      exact ⟨argument, known, rfl⟩

theorem reserved_names (settings : Settings) (member : Member) :
    (member.reserved settings).Sublist ["name", "description"] := by
  unfold reserved ownPhrases descriptionPhrases
  cases member.explicitName <;> cases settings.described member.description <;> simp

theorem direct_free {settings : Settings} {member : Member} {argument : InputValue}
    (direct : argument ∈ member.direct settings) :
    argument.name.text ∉ member.reserved settings ∧ argument.name.text ≠ "args" ∧
      isKeyword argument.name.text = false := by
  have free : isColliding argument.name.text (member.reserved settings) = false := by
    simpa using (List.mem_filter.mp direct).2
  simp only [isColliding, Bool.or_eq_false_iff] at free
  obtain ⟨⟨reserved, parameter⟩, keyword⟩ := free
  refine ⟨by simpa using reserved, ?_, keyword⟩
  intro same
  rw [same] at parameter
  exact absurd parameter (by decide)

/-- The keyword for the arguments that collide, if there are any. -/
def argsNames (settings : Settings) (member : Member) : List String :=
  if (member.mapped settings).isEmpty then [] else ["args"]

theorem argsNames_sublist (settings : Settings) (member : Member) :
    (member.argsNames settings).Sublist ["args"] := by
  unfold argsNames
  split <;> simp

theorem keywordPhrases_names (settings : Settings) (member : Member) :
    (member.keywordPhrases settings).map Prod.fst =
      member.reserved settings ++
        (member.direct settings).map (fun argument => argument.name.text) ++
        member.argsNames settings := by
  have last : (argsPhrases (Entries.ofPairs ((member.mapped settings).map
      (argumentEntry settings (member.reserved settings))))).map Prod.fst =
        member.argsNames settings := by
    simp only [argsPhrases, argsNames, List.isEmpty_iff, Entries.ofPairs_eq_nil_iff,
      List.map_eq_nil_iff]
    split <;> rfl
  simp only [keywordPhrases, List.map_append, List.map_map, last]
  rfl

/-- Only arguments that do not collide can repeat a keyword. -/
theorem keywordPhrases_repeated_iff (settings : Settings) (member : Member) (name : String) :
    2 ≤ ((member.keywordPhrases settings).map Prod.fst).count name ↔
      2 ≤ ((member.direct settings).map fun argument => argument.name.text).count name := by
  have fixed : (member.reserved settings ++ member.argsNames settings).Nodup :=
    ((member.reserved_names settings).append (member.argsNames_sublist settings)).nodup (by decide)
  have once := List.nodup_iff_count_le_one.mp fixed name
  rw [List.count_append] at once
  rw [keywordPhrases_names, List.count_append, List.count_append]
  by_cases listed : name ∈ (member.direct settings).map fun argument => argument.name.text
  · obtain ⟨argument, direct, rfl⟩ := List.mem_map.mp listed
    obtain ⟨unreserved, other, _⟩ := direct_free direct
    have unmapped : argument.name.text ∉ member.argsNames settings := by
      intro taken
      exact other (by simpa using (member.argsNames_sublist settings).subset taken)
    rw [List.count_eq_zero.mpr unreserved, List.count_eq_zero.mpr unmapped]
    omega
  · rw [List.count_eq_zero.mpr listed]
    omega

theorem keywordPhrases_not_keyword {settings : Settings} {member : Member}
    {entry : String × Phrase} (listed : entry ∈ member.keywordPhrases settings) :
    isKeyword entry.1 = false := by
  rcases mem_keywordPhrases listed with ⟨name, _, rfl⟩ | ⟨text, _, rfl⟩ | ⟨argument, direct, rfl⟩ |
    ⟨mapped, _, rfl, _⟩
  · show isKeyword "name" = false
    decide
  · show isKeyword "description" = false
    decide
  · exact (direct_free direct).2.2
  · show isKeyword "args" = false
    decide

/-- Arguments with names of their own are all written, in order. -/
theorem keywordPhrases_eq {settings : Settings} {member : Member}
    (distinct : (member.arguments.map fun argument => argument.name.text).Nodup) :
    member.keywordPhrases settings =
      member.ownPhrases settings ++
        (member.direct settings).map (argumentEntry settings (member.reserved settings)) ++
        argsPhrases ((member.mapped settings).map
          (argumentEntry settings (member.reserved settings))) := by
  have names : ((member.mapped settings).map
      (argumentEntry settings (member.reserved settings))).map Prod.fst =
        (member.mapped settings).map fun argument => argument.name.text := by
    simp [argumentEntry, Function.comp_def]
  -- Only under equal names would one entry of the mapping replace another.
  have kept : ((member.mapped settings).map fun argument => argument.name.text).Nodup :=
    List.Nodup.sublist (List.filter_sublist.map _) distinct
  simp only [keywordPhrases]
  rw [Entries.ofPairs_eq (by rw [names]; exact kept)]

theorem name_spelled (member : Member) : spellsName member.name.toList = true := by
  cases member with
  | field source => exact source.name.spelled
  | input source => exact source.name.spelled

theorem explicitName_eq {member : Member} {name : String} (given : name ∈ member.explicitName) :
    name = member.name := by
  unfold explicitName at given
  split at given
  · exact (Option.some.inj given).symm
  · cases given

theorem head_spelled (member : Member) : spellsName member.declarator.head.toList = true := by
  apply Declarator.outer_head_spelled
  cases member with
  | field source => exact ownWords_spelled "Field" (by decide)
  | input source => exact ownWords_spelled "InputField" (by decide)

theorem keywordPhrases_spelled {settings : Settings} {member : Member} {entry : String × Phrase}
    (listed : entry ∈ member.keywordPhrases settings) : spellsName entry.1.toList = true := by
  rcases mem_keywordPhrases listed with ⟨name, _, rfl⟩ | ⟨text, _, rfl⟩ | ⟨argument, _, rfl⟩ |
    ⟨mapped, _, rfl, _⟩
  · exact ownWords_spelled "name" (by decide)
  · exact ownWords_spelled "description" (by decide)
  · exact argument.name.spelled
  · exact ownWords_spelled "args" (by decide)

theorem sound_keywords {settings : Settings} {member : Member} {depth : Nat}
    (bound : ∀ type ∈ member.types, wrappers type ≤ depth) {entry : String × Phrase}
    (listed : entry ∈ member.keywordPhrases settings) : entry.2.Sound (depth + 2) := by
  have argument : ∀ argument ∈ member.arguments,
      (argumentPhrase settings (member.reserved settings) argument).Sound (depth + 1) := by
    intro argument listed
    exact sound_argument (bound argument.type (by simp [types]; exact .inr ⟨argument, listed, rfl⟩))
  -- The call of an argument opens one bracket, and the mapping around it another.
  rcases mem_keywordPhrases listed with ⟨name, _, rfl⟩ | ⟨text, _, rfl⟩ | ⟨known, direct, rfl⟩ |
    ⟨mapped, _, rfl, inside⟩
  · exact Phrase.sound_quoted name
  · exact Phrase.sound_quoted text
  · exact Layout.Lexes.mono (argument known (List.mem_filter.mp direct).1) (Nat.le_succ _)
  · apply Phrase.sound_mapping
    intro inner listed
    obtain ⟨known, given, rfl⟩ := inside inner listed
    exact argument known (List.mem_filter.mp given).1

theorem sound_phrase {settings : Settings} {member : Member} {depth : Nat}
    (bound : ∀ type ∈ member.types, wrappers type ≤ depth) :
    (member.phrase settings).Sound (depth + 3) := by
  apply Declarator.sound_phrase member.head_spelled _ (fun entry => keywordPhrases_spelled)
    (fun entry => sound_keywords bound)
  intro type given
  have own := bound member.type (by simp [types])
  have inner := Declarator.outer_operand_wrappers given
  omega

theorem wrappers_bounded (types : List TypeRef) :
    ∃ depth, ∀ type ∈ types, wrappers type ≤ depth := by
  induction types with
  | nil => exact ⟨0, by simp⟩
  | cons type rest ih =>
      obtain ⟨depth, bound⟩ := ih
      refine ⟨max (wrappers type) depth, ?_⟩
      intro known listed
      rcases List.mem_cons.mp listed with rfl | later
      · exact Nat.le_max_left _ _
      · exact Nat.le_trans (bound known later) (Nat.le_max_right _ _)

/-- The value of a member is read as the marks of its phrase. -/
theorem valueMarks_phrase (settings : Settings) (member : Member) :
    valueMarks (member.phrase settings).text = some (member.phrase settings).marks := by
  -- Values are read without a limit on brackets, so any bound on the depth will do.
  obtain ⟨depth, bound⟩ := wrappers_bounded member.types
  exact valueMarks_eq (sound_phrase bound)

end Member

end Members

end SchemaClasses.Build
