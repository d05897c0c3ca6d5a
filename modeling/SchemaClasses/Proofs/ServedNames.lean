import SchemaClasses.Proofs.ReadBack

/-!
The names under which fields are served. What a constructor is given as its `name` goes before
the name of the attribute, which is put in camel case. A schema name that would not come back is
given explicitly, and then nothing else is. Where it would come back, no name is given, unless
the field has an argument of that name, which is passed like any other.
-/

namespace SchemaClasses.Build

open Schema Naming Output Check

section OuterKeywords

/-- The keywords of the outermost call of a value, each with the marks of what it is given. -/
def outerKeywords (value : String) : List (String × List Mark) :=
  match (valueMarks value).bind readCall with
  | some (_, arguments) => arguments.filterMap readKeyword
  | none => []

/-- The outermost call of the value has just these keywords. -/
def CalledWith (value : String) (keywords : List Keyword) : Prop :=
  (outerKeywords value).map (fun entry => (entry.1, some entry.2)) =
    keywords.map fun keyword => (keyword.name, valueMarks keyword.value)

/-- What the outermost call of a value is given as its `name`. -/
def namesGiven (value : String) : List (List Mark) :=
  ((outerKeywords value).filter (·.1 = "name")).map Prod.snd

/-- The name under which an attribute is served. No name is served if several are given, or
something that is not a text. -/
def servedName? (assignment : Attribute) : Option String :=
  match namesGiven assignment.value with
  | [] => some (camelCase assignment.name)
  | [[.text body]] => some (textOf body)
  | _ => none

/-- A type that stands before the keywords is not taken for one of them. -/
theorem readKeyword_type (type : TypeRef) : readKeyword (typePhrase type).marks = none := by
  cases type <;> rfl

theorem readKeyword_phrase (entry : String × Phrase) :
    readKeyword (Phrase.keyword entry).marks = some (entry.1, entry.2.marks) :=
  rfl

namespace Member

theorem outerKeywords_phrase (settings : Settings) (member : Member) :
    outerKeywords (member.phrase settings).text =
      (member.keywordPhrases settings).map fun entry => (entry.1, entry.2.marks) := by
  have call : readCall (member.phrase settings).marks = _ :=
    Declarator.readCall_phrase (member.whole_keywords settings)
  have operand : (member.declarator.operand.toList.map fun type =>
      (typePhrase type).marks).filterMap readKeyword = [] := by
    simp [List.filterMap_map, readKeyword_type]
  have keywords : ((member.keywordPhrases settings).map fun entry =>
      (Phrase.keyword entry).marks).filterMap readKeyword =
        (member.keywordPhrases settings).map fun entry => (entry.1, entry.2.marks) := by
    simp [List.filterMap_map, Function.comp_def, readKeyword_phrase]
  rw [outerKeywords, valueMarks_phrase, Option.bind_some, call]
  simp only [List.filterMap_append, operand, keywords, List.nil_append]

theorem calledWith_phrase (settings : Settings) (member : Member) :
    CalledWith (member.phrase settings).text ((member.keywordPhrases settings).map written) := by
  obtain ⟨depth, bound⟩ := wrappers_bounded member.types
  rw [CalledWith, outerKeywords_phrase, List.map_map, List.map_map]
  apply List.map_congr_left
  intro entry listed
  simp [written, valueMarks_eq (sound_keywords bound listed)]

end Member

end OuterKeywords

section Names

/-! The keyword `name` is the constructor's own, or else an argument's. -/

theorem filter_descriptions (settings : Settings) (description : Option String) :
    (descriptionPhrases settings description).filter (·.1 = "name") = [] := by
  rw [List.filter_eq_nil_iff]
  intro entry listed
  obtain ⟨text, _, rfl⟩ := descriptionPhrases_spec listed
  simp

theorem filter_argsPhrases (mapped : Entries Phrase) :
    (argsPhrases mapped).filter (·.1 = "name") = [] := by
  unfold argsPhrases
  split <;> simp

namespace Member

theorem reserved_named {member : Member} (explicit : needsExplicitName member.name = true)
    (settings : Settings) : "name" ∈ member.reserved settings := by
  simp [reserved, ownPhrases, explicitName, explicit]

theorem reserved_unnamed {member : Member} (implicit : needsExplicitName member.name = false)
    (settings : Settings) : "name" ∉ member.reserved settings := by
  intro taken
  obtain ⟨entry, listed, same⟩ := List.mem_map.mp taken
  simp only [ownPhrases, explicitName, implicit, Bool.false_eq_true, if_false, Option.toList_none,
    List.map_nil, List.nil_append] at listed
  obtain ⟨text, _, rfl⟩ := descriptionPhrases_spec listed
  simp at same

/-- Where no name is given explicitly, an argument may take the keyword. -/
theorem name_free {member : Member} (implicit : needsExplicitName member.name = false)
    (settings : Settings) : isColliding "name" (member.reserved settings) = false := by
  have others : (fieldParameters.contains "name" || isKeyword "name") = false := by decide
  rw [isColliding, Bool.or_assoc, others, Bool.or_false]
  simpa using reserved_unnamed implicit settings

theorem nameKeywords_explicit {member : Member} (explicit : needsExplicitName member.name = true)
    (settings : Settings) :
    (member.keywordPhrases settings).filter (·.1 = "name") = [("name", .quoted member.name)] := by
  -- The name is reserved, so an argument of that name goes into the `args` mapping.
  have direct : ((member.direct settings).map
      (argumentEntry settings (member.reserved settings))).filter (·.1 = "name") = [] := by
    rw [List.filter_eq_nil_iff]
    intro entry listed
    obtain ⟨argument, kept, rfl⟩ := List.mem_map.mp listed
    have free := (List.mem_filter.mp kept).2
    intro called
    have same : argument.name.text = "name" := of_decide_eq_true called
    simp [isColliding, same, reserved_named explicit settings] at free
  simp only [keywordPhrases, ownPhrases, List.filter_append, direct, filter_descriptions,
    filter_argsPhrases, List.append_nil]
  simp [explicitName, explicit]

theorem nameKeywords_implicit {member : Member} (implicit : needsExplicitName member.name = false)
    (settings : Settings) :
    (member.keywordPhrases settings).filter (·.1 = "name") =
      (member.arguments.filter (·.name.text = "name")).map
        (argumentEntry settings (member.reserved settings)) := by
  have direct : ((member.direct settings).map
      (argumentEntry settings (member.reserved settings))).filter (·.1 = "name") =
        (member.arguments.filter (·.name.text = "name")).map
          (argumentEntry settings (member.reserved settings)) := by
    rw [List.filter_map, Member.direct, directArguments, List.filter_filter]
    congr 1
    apply List.filter_congr
    intro argument _
    by_cases called : argument.name.text = "name"
    · simp [argumentEntry, called, name_free implicit settings]
    · simp [argumentEntry, called]
  simp only [keywordPhrases, ownPhrases, List.filter_append, direct, filter_descriptions,
    filter_argsPhrases, List.append_nil]
  simp [explicitName, implicit]

theorem namesGiven_phrase (settings : Settings) (member : Member) :
    namesGiven (member.phrase settings).text =
      ((member.keywordPhrases settings).filter (·.1 = "name")).map fun entry => entry.2.marks := by
  rw [namesGiven, outerKeywords_phrase, List.filter_map, List.map_map]
  rfl

end Member

end Names

section Served

/-- Arguments that do not collide are written as they are declared. -/
theorem direct_declarations (settings : Settings) {reserved : List String}
    {arguments : List InputValue}
    (free : ∀ argument ∈ arguments, isColliding argument.name.text reserved = false) :
    ((arguments.map (argumentEntry settings reserved)).map written).map
        (fun keyword => Except.ok keyword.value) =
      arguments.map fun argument => (argumentDeclaration settings argument).outcome := by
  rw [List.map_map, List.map_map]
  apply List.map_congr_left
  intro argument listed
  rw [argumentDeclaration_eq settings reserved argument (free argument listed)]
  rfl

namespace Member

/-- An argument is a call, so it is never taken for a text. -/
theorem servedName_phrase (settings : Settings) (member : Member) :
    servedName? ⟨attributeName member.name, (member.phrase settings).text⟩ = some member.name ↔
      needsExplicitName member.name = true ∨
        ∀ argument ∈ member.arguments, argument.name.text ≠ "name" := by
  rw [servedName?, namesGiven_phrase]
  cases explicit : needsExplicitName member.name with
  | true =>
      rw [nameKeywords_explicit explicit]
      simp [Phrase.quoted, textOf_escaped]
  | false =>
      rw [nameKeywords_implicit explicit]
      cases called : member.arguments.filter (·.name.text = "name") with
      | nil =>
          have none : ∀ argument ∈ member.arguments, argument.name.text ≠ "name" := by
            simpa [List.filter_eq_nil_iff] using called
          simpa [camelCase_attributeName explicit] using none
      | cons argument others =>
          have listed : argument ∈ member.arguments.filter (·.name.text = "name") := by
            simp [called]
          have named : ¬ ∀ argument ∈ member.arguments, argument.name.text ≠ "name" := by
            intro none
            have same := of_decide_eq_true (List.mem_filter.mp listed).2
            exact none argument (List.mem_filter.mp listed).1 same
          cases others <;>
            simpa [argumentEntry, argumentPhrase, Declarator.phrase, Phrase.call, callMarks]
              using named

/-- A name that would not come back from the attribute is given as it stands in the schema, once
and beside nothing else. Otherwise the name in camel case is that of the schema, and what is
given as `name` are the arguments so called. So a field is served under its own name unless it
needs none and has an argument called `name`. -/
theorem toAttribute_served (settings : Settings) (context : Context) (member : Member)
    (result : Attribute) (done : ((member.toAttribute settings).runIn context).1 = .ok result) :
    ∃ keywords, (member.keywords settings).outcome = .ok keywords ∧
      CalledWith result.value keywords ∧
      (needsExplicitName member.name = true →
        keywords.filter (·.name = "name") = [⟨"name", Literal.quoted member.name⟩]) ∧
      (needsExplicitName member.name = false →
        camelCase result.name = member.name ∧
        (keywords.filter (·.name = "name")).map (fun keyword => Except.ok keyword.value) =
          (member.arguments.filter (·.name.text = "name")).map fun argument =>
            (argumentDeclaration settings argument).outcome) ∧
      (servedName? result = some member.name ↔ needsExplicitName member.name = true ∨
        ∀ argument ∈ member.arguments, argument.name.text ≠ "name") := by
  have admitted : member.Admitted settings := admitted_of_toAttribute done
  have made : result = ⟨attributeName member.name, (member.phrase settings).text⟩ := by
    have outcome : (member.toAttribute settings).outcome = .ok result := done
    rw [toAttribute_eq admitted] at outcome
    exact (Except.ok.inj outcome).symm
  have filtered : ((member.keywordPhrases settings).map written).filter (·.name = "name") =
      ((member.keywordPhrases settings).filter (·.1 = "name")).map written := by
    rw [List.filter_map]
    rfl
  have outcome : (member.keywords settings).outcome =
      .ok ((member.keywordPhrases settings).map written) := by rw [keywords_eq admitted]
  rw [made]
  dsimp only
  refine ⟨_, outcome, calledWith_phrase settings member, fun explicit => ?_, fun implicit => ?_,
    servedName_phrase settings member⟩
  · rw [filtered, nameKeywords_explicit explicit]
    rfl
  · rw [filtered, nameKeywords_implicit implicit]
    refine ⟨camelCase_attributeName implicit, direct_declarations settings ?_⟩
    intro argument listed
    have same : argument.name.text = "name" := of_decide_eq_true (List.mem_filter.mp listed).2
    rw [same]
    exact name_free implicit settings

/-- A name with a run of capitals, and an argument that would take the place of it. -/
def urlField : Member :=
  .field
    { name := named "getURL"
      description := none
      arguments := [⟨named "name", none, .nonNull (.leaf (named "String"))⟩]
      type := .list (.leaf (named "Link")) }

def urlAttribute : Attribute :=
  ⟨"get_ur_l",
    "List(Link, name=\x27getURL\x27, args=\x7b\x27name\x27: Argument(NonNull(String))\x7d)"⟩

theorem served_urlField :
    ((urlField.toAttribute {}).runIn {}).1 = .ok urlAttribute ∧
      servedName? urlAttribute = some "getURL" := by
  have done : ((urlField.toAttribute {}).runIn {}).1 = .ok urlAttribute := rfl
  have explicit : needsExplicitName urlField.name = true := by decide +kernel
  obtain ⟨_, _, _, _, _, served⟩ := toAttribute_served {} {} urlField urlAttribute done
  exact ⟨done, served.mpr (.inl explicit)⟩

/-- A field that needs no explicit name, with an argument called `name`. -/
def userField : Member :=
  .field
    { name := named "user"
      description := none
      arguments := [⟨named "name", none, .leaf (named "String")⟩]
      type := .leaf (named "User") }

theorem userField_not_served :
    ((userField.toAttribute {}).runIn {}).1 = .ok ⟨"user", "Field(User, name=String())"⟩ ∧
    ("name", [.word "String", .sign '(', .sign ')']) ∈
      outerKeywords "Field(User, name=String())" ∧
    valueMarks (Literal.quoted userField.name) ≠ some [.word "String", .sign '(', .sign ')'] ∧
    servedName? ⟨"user", "Field(User, name=String())"⟩ = none :=
  ⟨rfl, by decide +kernel, by decide +kernel, by decide +kernel⟩

end Member

end Served

end SchemaClasses.Build
