import SchemaClasses.Proofs.ServedNames

/-!
The keywords of a member as they are read from its text. Names that the constructor takes for
itself come first, then those of the arguments as often as they are given, and `args` at the
end. An argument that would repeat one of the fixed names collides, so only arguments can
repeat each other; within the `args` mapping not even they do.
-/

namespace SchemaClasses.Build

open Schema Naming Output Check

section Reader

/-- The keywords of a call, from the text between its brackets. -/
def readKeywords (text : String) : Option (List (String × List Mark)) := do
  let marks ← valueMarks text
  (piecesOf marks).mapM readKeyword

def readPair : List Mark → Option (String × List Mark)
  | .text key :: .sign ':' :: value => some (textOf key, value)
  | _ => none

def readMapping : List Mark → Option (Entries (List Mark))
  | .sign '\x7b' :: rest =>
      if rest.getLast? = some (.sign '\x7d') then (piecesOf rest.dropLast).mapM readPair else none
  | _ => none

theorem readPair_entry (entry : String × Phrase) :
    readPair (entryMarks (entry.1.toList.flatMap Literal.escapeChar, entry.2.marks)) =
      some (entry.1, entry.2.marks) := by
  rw [entryMarks, readPair, textOf_escaped]

theorem readMapping_phrase {entries : Entries Phrase}
    (whole : ∀ entry ∈ entries, Whole entry.2.marks) :
    readMapping (Phrase.mapping entries).marks =
      some (entries.map fun entry => (entry.1, entry.2.marks)) := by
  let piece := fun entry : String × Phrase =>
    entryMarks (entry.1.toList.flatMap Literal.escapeChar, entry.2.marks)
  have pieces : piecesOf (joined (entries.map piece)) = entries.map piece :=
    piecesOf_joined (List.forall_mem_map.mpr fun entry listed => whole_entry (whole entry listed))
  have read : (entries.map piece).mapM readPair =
      some (entries.map fun entry => (entry.1, entry.2.marks)) :=
    mapM_some fun entry _ => readPair_entry entry
  have marks : (Phrase.mapping entries).marks =
      .sign '\x7b' :: (joined (entries.map piece) ++ [.sign '\x7d']) := by
    simp [Phrase.mapping, mappingMarks, piece, Function.comp_def]
  simp [marks, readMapping, pieces, read]

end Reader

section Members

namespace Member

/-- The keywords that the constructor takes for itself. -/
def ownNames (settings : Settings) (member : Member) : List String :=
  (if needsExplicitName member.name then ["name"] else []) ++
    (if (settings.described member.description).isSome then ["description"] else [])

/-- Whether an argument cannot stand next to the constructor's own keywords. -/
def collides (settings : Settings) (member : Member) (argument : InputValue) : Bool :=
  isColliding argument.name.text (member.ownNames settings)

theorem reserved_eq_ownNames (settings : Settings) (member : Member) :
    member.reserved settings = member.ownNames settings := by
  unfold reserved ownPhrases explicitName descriptionPhrases ownNames
  cases needsExplicitName member.name <;> cases settings.described member.description <;> rfl

theorem direct_eq (settings : Settings) (member : Member) :
    member.direct settings = member.arguments.filter (!member.collides settings ·) := by
  rw [direct, reserved_eq_ownNames]
  rfl

theorem mapped_eq (settings : Settings) (member : Member) :
    member.mapped settings = member.arguments.filter (member.collides settings) := by
  rw [mapped, reserved_eq_ownNames]
  rfl

theorem argsNames_eq (settings : Settings) (member : Member) :
    member.argsNames settings =
      if member.arguments.any (member.collides settings) then ["args"] else [] := by
  rw [argsNames, mapped_eq]
  cases found : member.arguments.any (member.collides settings) <;> simp_all

theorem readKeywords_written (settings : Settings) (member : Member) :
    readKeywords (renderKeywords ((member.keywordPhrases settings).map written)) =
      some ((member.keywordPhrases settings).map fun entry => (entry.1, entry.2.marks)) := by
  -- Texts are read without a limit on brackets, so any bound on the depth will do.
  obtain ⟨depth, bound⟩ := wrappers_bounded member.types
  let entries := member.keywordPhrases settings
  let marks := entries.map fun entry => (Phrase.keyword entry).marks
  have each : ∀ piece ∈ entries.map fun entry =>
      ((Phrase.keyword entry).text.toList, (Phrase.keyword entry).marks),
      Layout.Lexes piece.1 piece.2 (depth + 2) :=
    List.forall_mem_map.mpr fun entry listed =>
      Phrase.sound_keyword (keywordPhrases_spelled listed) (sound_keywords bound listed)
  have lexed : Layout.Lexes (renderKeywords (entries.map written)).toList (joined marks)
      (depth + 2) := by
    rw [renderKeywords, render_written]
    simpa [joined, marks, Function.comp_def] using Layout.lexes_joined _ each
  have pieces : piecesOf (joined marks) = marks :=
    piecesOf_joined (List.forall_mem_map.mpr fun entry listed =>
      whole_keyword (whole_keywords settings member entry listed))
  rw [readKeywords, valueMarks_eq lexed, Option.bind_eq_bind, Option.bind_some, pieces]
  exact mapM_some fun entry _ => readKeyword_phrase entry

/-- The entries of the `args` mapping. -/
def mappedEntries (settings : Settings) (member : Member) : Entries Phrase :=
  Entries.ofPairs ((member.mapped settings).map
    (argumentEntry settings (member.reserved settings)))

theorem eq_mapping_of_args {settings : Settings} {member : Member} {phrase : Phrase}
    (listed : ("args", phrase) ∈ member.keywordPhrases settings) :
    phrase = .mapping (member.mappedEntries settings) := by
  simp only [keywordPhrases, List.mem_append] at listed
  -- Neither a fixed name nor an argument that is passed directly is called `args`.
  rcases listed with (own | direct) | mapping
  · have reserved : "args" ∈ member.reserved settings := List.mem_map.mpr ⟨_, own, rfl⟩
    exact absurd ((member.reserved_names settings).subset reserved) (by decide)
  · obtain ⟨argument, kept, same⟩ := List.mem_map.mp direct
    exact absurd (congrArg Prod.fst same) (direct_free kept).2.1
  · unfold argsPhrases at mapping
    split at mapping
    · cases mapping
    · simpa [mappedEntries] using mapping

theorem keys_mappedEntries (settings : Settings) (member : Member) :
    (member.mappedEntries settings).map Prod.fst =
      ((member.mapped settings).map fun argument => argument.name.text).eraseDups := by
  rw [mappedEntries, Entries.keys_ofPairs, List.map_map]
  rfl

/-- What the mapping holds under a name is the last argument of that name. -/
theorem last_of_mem_mappedEntries {settings : Settings} {member : Member}
    {entry : String × Phrase} (listed : entry ∈ member.mappedEntries settings) :
    ∃ argument, ((member.mapped settings).filter (·.name.text = entry.1)).getLast? =
        some argument ∧ entry = argumentEntry settings (member.reserved settings) argument := by
  have last := Entries.last_of_mem_ofPairs listed
  rw [List.filter_map, List.getLast?_map] at last
  obtain ⟨argument, found, rfl⟩ := Option.map_eq_some_iff.mp last
  exact ⟨argument, found, rfl⟩

theorem whole_mappedEntries (settings : Settings) (member : Member) :
    ∀ entry ∈ member.mappedEntries settings, Whole entry.2.marks := by
  intro entry listed
  obtain ⟨argument, _, rfl⟩ := last_of_mem_mappedEntries listed
  exact whole_argument settings _ argument

/-- The declaration of an argument that collides, and how it is read. -/
theorem mappedDeclaration_read {settings : Settings} {member : Member} {argument : InputValue}
    (mapped : argument ∈ member.mapped settings) :
    ∃ text, (mappedDeclaration settings argument).outcome = .ok text ∧
      valueMarks text =
        some (argumentPhrase settings (member.reserved settings) argument).marks := by
  have taken := (List.mem_filter.mp mapped).2
  refine ⟨_, congrArg Recorded.outcome (mappedDeclaration_eq settings _ argument taken), ?_⟩
  exact valueMarks_eq (sound_argument (Nat.le_refl _))

end Member

end Members

section Sequence

/-- The keywords of a member are the constructor's own, then its arguments in order, and then
`args` if any of them collides. None is a reserved word, and only arguments repeat a keyword.
The mapping has one entry for each name that collides, in the order in which the names come
first, and each entry holds the last argument of its name. -/
theorem keyword_sequence (settings : Settings) (member : Member) (context : Context)
    (any : settings.scalarArgumentsOnly = false) :
    ∃ keywords read, ((member.keywords settings).runIn context).1 = .ok keywords ∧
      readKeywords (renderKeywords keywords) = some read ∧
      read.map Prod.fst = member.ownNames settings ++
        (member.arguments.filter (!member.collides settings ·)).map (·.name.text) ++
        (if member.arguments.any (member.collides settings) then ["args"] else []) ∧
      (∀ name, 2 ≤ (read.map Prod.fst).count name ↔
        2 ≤ ((member.arguments.filter (!member.collides settings ·)).map (·.name.text)).count
          name) ∧
      (∀ name ∈ read.map Prod.fst, isKeyword name = false) ∧
      ∀ value, ("args", value) ∈ read → ∃ entries, readMapping value = some entries ∧
        entries.map Prod.fst =
          ((member.arguments.filter (member.collides settings)).map (·.name.text)).eraseDups ∧
        ∀ entry ∈ entries, ∃ argument text,
          ((member.arguments.filter (member.collides settings)).filter
            (·.name.text = entry.1)).getLast? = some argument ∧
          (mappedDeclaration settings argument).outcome = .ok text ∧
          valueMarks text = some entry.2 := by
  let phrases := member.keywordPhrases settings
  have names : (phrases.map fun entry => (entry.1, entry.2.marks)).map Prod.fst =
      phrases.map Prod.fst := by
    simp [Function.comp_def]
  refine ⟨phrases.map written, phrases.map fun entry => (entry.1, entry.2.marks), ?_,
    member.readKeywords_written settings, ?_, ?_, ?_, ?_⟩
  · rw [Recorded.runIn, Member.keywords_eq (member.admitted_of_open any)]
  · rw [names, Member.keywordPhrases_names, Member.reserved_eq_ownNames, Member.direct_eq,
      Member.argsNames_eq]
  · intro name
    rw [names, Member.keywordPhrases_repeated_iff, Member.direct_eq]
  · rw [names]
    intro name listed
    obtain ⟨entry, known, rfl⟩ := List.mem_map.mp listed
    exact Member.keywordPhrases_not_keyword known
  · intro value listed
    obtain ⟨⟨name, phrase⟩, known, same⟩ := List.mem_map.mp listed
    obtain ⟨rfl, rfl⟩ := Prod.mk.inj same
    rw [Member.eq_mapping_of_args known, readMapping_phrase (member.whole_mappedEntries settings)]
    refine ⟨_, rfl, ?_, ?_⟩
    · rw [← Member.mapped_eq, ← Member.keys_mappedEntries, List.map_map]
      rfl
    · rw [← Member.mapped_eq]
      intro entry inside
      obtain ⟨inner, mapped, rfl⟩ := List.mem_map.mp inside
      obtain ⟨argument, last, rfl⟩ := Member.last_of_mem_mappedEntries mapped
      have collides := (List.mem_filter.mp (List.mem_of_getLast? last)).1
      obtain ⟨text, declared, read⟩ := Member.mappedDeclaration_read collides
      exact ⟨argument, text, last, declared, read⟩

/-- A field that needs an explicit name, which an argument has twice. Another name comes twice as
well but is free. -/
def repeatedArguments : Member :=
  let argument (name type : String) : InputValue := ⟨named name, none, .leaf (named type)⟩
  .field ⟨named "user_name", some "Who it is.",
    [argument "name" "Int", argument "first" "Int", argument "class" "Int",
      argument "first" "String", argument "args" "Int", argument "name" "String"],
    .leaf (named "String")⟩

theorem keyword_sequence_repeatedArguments :
    ∃ keywords read, ((repeatedArguments.keywords {}).runIn {}).1 = .ok keywords ∧
      readKeywords (renderKeywords keywords) = some read ∧
      read.map Prod.fst = ["name", "description", "first", "first", "args"] ∧
      ∀ value, ("args", value) ∈ read → ∃ entries, readMapping value = some entries ∧
        entries.map Prod.fst = ["name", "class", "args"] ∧
        ∀ marks, ("name", marks) ∈ entries → valueMarks "Argument(String)" = some marks := by
  obtain ⟨keywords, read, made, known, names, _, _, mapping⟩ :=
    keyword_sequence {} repeatedArguments {} rfl
  refine ⟨keywords, read, made, known, ?_, ?_⟩
  · rw [names]
    decide +kernel
  · intro value listed
    obtain ⟨entries, found, keys, each⟩ := mapping value listed
    refine ⟨entries, found, ?_, ?_⟩
    · rw [keys]
      decide +kernel
    · intro marks inside
      obtain ⟨argument, text, last, declared, read⟩ := each _ inside
      have second : argument = ⟨named "name", none, .leaf (named "String")⟩ := by
        rw [← Option.some.injEq, ← last]
        show ((repeatedArguments.arguments.filter (repeatedArguments.collides {})).filter
          (·.name.text = "name")).getLast? = _
        decide +kernel
      have written : text = "Argument(String)" := by
        rw [second] at declared
        exact (Except.ok.inj declared).symm
      rwa [written] at read

end Sequence

end SchemaClasses.Build
