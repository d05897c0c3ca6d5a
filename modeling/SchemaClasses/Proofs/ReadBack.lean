import SchemaClasses.Build.Context
import SchemaClasses.Proofs.Phrases

/-!
Reading a member back from its value. The marks of the value are split at the commas that
stand outside of brackets, and every piece tells by its shape what it was written from.
-/

namespace SchemaClasses.Build

open Schema Naming Output Check

section Splitting

def depthAfter (depth : Nat) : Mark → Nat
  | .sign c =>
      if c = '(' || c = '\x7b' then depth + 1
      else if c = ')' || c = '\x7d' then depth - 1
      else depth
  | _ => depth

/-- The pieces between the commas outside of brackets; one more piece than there are
such commas. -/
def splitMarks (depth : Nat) : List Mark → List (List Mark)
  | [] => [[]]
  | mark :: rest =>
      -- A comma inside of brackets is a mark like any other.
      if depth = 0 && mark = .sign ',' then [] :: splitMarks 0 rest
      else match splitMarks (depthAfter depth mark) rest with
        | [] => [[mark]]
        | piece :: pieces => (mark :: piece) :: pieces

def ahead (marks : List Mark) : List (List Mark) → List (List Mark)
  | [] => [marks]
  | piece :: pieces => (marks ++ piece) :: pieces

theorem ahead_append (first second : List Mark) (pieces : List (List Mark)) :
    ahead (first ++ second) pieces = ahead first (ahead second pieces) := by
  cases pieces <;> simp [ahead]

theorem ahead_nil {pieces : List (List Mark)} (filled : pieces ≠ []) :
    ahead [] pieces = pieces := by
  cases pieces with
  | nil => exact absurd rfl filled
  | cons piece pieces => rfl

theorem splitMarks_filled (depth : Nat) (marks : List Mark) : splitMarks depth marks ≠ [] := by
  cases marks with
  | nil => simp [splitMarks]
  | cons mark rest =>
      rw [splitMarks]
      split
      · simp
      · split <;> simp

theorem splitMarks_step {depth : Nat} {mark : Mark} (inside : 0 < depth ∨ mark ≠ .sign ',')
    (rest : List Mark) :
    splitMarks depth (mark :: rest) = ahead [mark] (splitMarks (depthAfter depth mark) rest) := by
  have stays : (depth = 0 && mark = .sign ',') = false := by
    rcases inside with deep | other
    · simp [Nat.ne_of_gt deep]
    · simp [other]
  rw [splitMarks, stays]
  cases splitMarks (depthAfter depth mark) rest <;> rfl

/-- From the given depth on the marks stay in one piece. -/
def Holds (low : Nat) (marks : List Mark) : Prop :=
  ∀ depth, low ≤ depth →
    ∀ rest, splitMarks depth (marks ++ rest) = ahead marks (splitMarks depth rest)

theorem Holds.mono (low : Nat) {marks : List Mark} (holds : Holds 0 marks) : Holds low marks :=
  fun depth _ rest => holds depth (Nat.zero_le depth) rest

theorem holds_nil (low : Nat) : Holds low [] := by
  intro depth _ rest
  rw [List.nil_append, ahead_nil (splitMarks_filled depth rest)]

theorem Holds.append {low : Nat} {first second : List Mark} (head : Holds low first)
    (tail : Holds low second) : Holds low (first ++ second) := by
  intro depth deep rest
  rw [List.append_assoc, head depth deep, tail depth deep, ahead_append]

theorem holds_mark {low : Nat} {mark : Mark} (inside : 0 < low ∨ mark ≠ .sign ',')
    (level : ∀ depth, depthAfter depth mark = depth) : Holds low [mark] := by
  intro depth deep rest
  have stays : 0 < depth ∨ mark ≠ .sign ',' := inside.imp_left fun positive => by omega
  rw [List.singleton_append, splitMarks_step stays, level]

theorem holds_enclosed (opener closer : Char)
    (pair : (opener, closer) ∈ [('(', ')'), ('\x7b', '\x7d')]) {marks : List Mark}
    (inside : Holds 1 marks) : Holds 0 (.sign opener :: (marks ++ [.sign closer])) := by
  intro depth _ rest
  have opens : depthAfter depth (.sign opener) = depth + 1 ∧ opener ≠ ',' := by
    simp only [List.mem_cons, Prod.mk.injEq, List.not_mem_nil, or_false] at pair
    rcases pair with ⟨rfl, rfl⟩ | ⟨rfl, rfl⟩ <;> exact ⟨rfl, by decide⟩
  have closes : depthAfter (depth + 1) (.sign closer) = depth := by
    simp only [List.mem_cons, Prod.mk.injEq, List.not_mem_nil, or_false] at pair
    rcases pair with ⟨rfl, rfl⟩ | ⟨rfl, rfl⟩ <;> rfl
  rw [List.cons_append, splitMarks_step (.inr (by simpa using opens.2)), opens.1,
    List.append_assoc, inside (depth + 1) (by omega), List.singleton_append,
    splitMarks_step (.inl (Nat.succ_pos depth)), closes, ← ahead_append, ← ahead_append]
  rfl

theorem holds_joined {pieces : List (List Mark)} (each : ∀ piece ∈ pieces, Holds 0 piece) :
    Holds 1 (joined pieces) := by
  -- The commas between the pieces are the reason why the depth must not be zero.
  have comma : Holds 1 [.sign ','] := holds_mark (.inl (by decide)) fun _ => rfl
  induction pieces with
  | nil => exact holds_nil 1
  | cons first rest ih =>
      have others := ih fun piece member => each piece (by simp [member])
      have head := (each first (by simp)).mono 1
      cases rest with
      | nil => simpa [joined] using head
      | cons second rest => simpa [joined] using head.append (comma.append others)

theorem splitMarks_joined {pieces : List (List Mark)} (filled : pieces ≠ [])
    (each : ∀ piece ∈ pieces, Holds 0 piece) : splitMarks 0 (joined pieces) = pieces := by
  induction pieces with
  | nil => exact absurd rfl filled
  | cons first rest ih =>
      have head := each first (by simp) 0 (Nat.le_refl 0)
      cases rest with
      | nil =>
          have alone := head []
          simpa [joined, splitMarks, ahead] using alone
      | cons second rest =>
          have others := ih (by simp) fun piece member => each piece (by simp [member])
          -- The first piece holds together, and the comma after it starts the next one.
          have parted : splitMarks 0 (.sign ',' :: joined (second :: rest)) =
              [] :: second :: rest := by
            rw [splitMarks]
            simp [others]
          have whole : joined (first :: second :: rest) =
              first ++ .sign ',' :: joined (second :: rest) := by
            simp [joined]
          rw [whole, head, parted]
          simp [ahead]

end Splitting

section Reader

/-! What is read back. -/

structure ArgumentForm where
  name : String
  type : TypeExpr String
  description : Option String
  deriving DecidableEq, Repr

structure MemberForm where
  type : TypeExpr String
  name : Option String
  description : Option String
  direct : List ArgumentForm
  mapped : List ArgumentForm
  deriving DecidableEq, Repr

def unescape : List Char → List Char
  | [] => []
  | '\\' :: c :: rest =>
      (if c = 'n' then '\n' else if c = 'r' then '\r' else c) :: unescape rest
  | c :: rest => c :: unescape rest

def textOf (body : List Char) : String :=
  String.ofList (unescape body)

/-- The pieces within a pair of brackets. -/
def piecesOf (marks : List Mark) : List (List Mark) :=
  if marks.isEmpty then [] else splitMarks 0 marks

def readCall : List Mark → Option (String × List (List Mark))
  | .word head :: .sign '(' :: rest =>
      if rest.getLast? = some (.sign ')') then some (head, piecesOf rest.dropLast) else none
  | _ => none

def readType : List Mark → Option (TypeExpr String)
  | .word name :: rest =>
      match rest with
      | .sign '(' :: inner =>
          if name = "List" then (readType inner).map .list
          else if name = "NonNull" then (readType inner).map .nonNull
          else none
      | _ => some (.leaf name)
  | _ => none

def readOperand (wrap : TypeExpr String → TypeExpr String) :
    List (List Mark) → Option (TypeExpr String × List (List Mark))
  | [] => none
  | operand :: keywords => (readType operand).map fun type => (wrap type, keywords)

/-- The type of a declaration and its keywords. A call of anything but the wrappers and the
container is a built-in scalar. -/
def readDeclaration (container : String) (marks : List Mark) :
    Option (TypeExpr String × List (List Mark)) := do
  let (head, arguments) ← readCall marks
  if head = "List" then readOperand .list arguments
  else if head = "NonNull" then readOperand .nonNull arguments
  else if head = container then readOperand id arguments
  else return (.leaf head, arguments)

def readKeyword : List Mark → Option (String × List Mark)
  | .word name :: .sign '=' :: value => some (name, value)
  | _ => none

/-- The only keyword of an argument is its description. -/
def readDescription : List (List Mark) → Option (Option String)
  | [] => some none
  | [[.word _, .sign '=', .text body]] => some (some (textOf body))
  | _ => none

def readArgument (name : String) (value : List Mark) : Option ArgumentForm := do
  let (type, keywords) ← readDeclaration "Argument" value
  let description ← readDescription keywords
  return ⟨name, type, description⟩

def readEntry : List Mark → Option ArgumentForm
  | .text key :: .sign ':' :: value => readArgument (textOf key) value
  | _ => none

/-- What one keyword of a member stands for. -/
inductive Part where
  | name (text : String)
  | description (text : String)
  | direct (argument : ArgumentForm)
  | mapped (arguments : List ArgumentForm)

/-- The constructor's own keywords have texts for values, and the `args` keyword has a
mapping. All other keywords are arguments. -/
def readPart (keyword : List Mark) : Option Part := do
  let (name, value) ← readKeyword keyword
  match value with
  | [.text body] =>
      if name = "name" then some (.name (textOf body)) else some (.description (textOf body))
  | .sign '\x7b' :: rest =>
      let arguments ← (piecesOf rest.dropLast).mapM readEntry
      return .mapped arguments
  | _ =>
      let argument ← readArgument name value
      return .direct argument

namespace Part

def name? : Part → Option String
  | .name text => some text
  | _ => none

def description? : Part → Option String
  | .description text => some text
  | _ => none

def direct? : Part → Option ArgumentForm
  | .direct argument => some argument
  | _ => none

def mappedArguments : Part → List ArgumentForm
  | .mapped arguments => arguments
  | _ => []

end Part

namespace MemberForm

def ofParts (type : TypeExpr String) (parts : List Part) : MemberForm where
  type := type
  name := (parts.filterMap Part.name?).head?
  description := (parts.filterMap Part.description?).head?
  direct := parts.filterMap Part.direct?
  mapped := parts.flatMap Part.mappedArguments

def parts (form : MemberForm) : List Part :=
  form.name.toList.map .name ++ form.description.toList.map .description ++
    form.direct.map .direct ++ (if form.mapped.isEmpty then [] else [.mapped form.mapped])

theorem ofParts_parts (form : MemberForm) : ofParts form.type form.parts = form := by
  obtain ⟨type, name, description, direct, mapped⟩ := form
  -- Each component is looked for among parts of which only one kind can hold it.
  have last : ∀ {A : Type} (find : Part → Option A),
      (∀ arguments, find (.mapped arguments) = none) →
      (if mapped.isEmpty then [] else [Part.mapped mapped]).filterMap find = [] := by
    intro A find absent
    split <;> simp [absent]
  have all : (if mapped.isEmpty then [] else [Part.mapped mapped]).flatMap Part.mappedArguments =
      mapped := by
    cases mapped <;> simp [Part.mappedArguments]
  simp only [ofParts, parts, MemberForm.mk.injEq, List.filterMap_append, List.flatMap_append,
    List.filterMap_map, List.flatMap_map, Function.comp_def, Part.name?, Part.description?,
    Part.direct?, Part.mappedArguments, last Part.name? fun _ => rfl,
    last Part.description? fun _ => rfl, last Part.direct? fun _ => rfl]
  refine ⟨trivial, ?_, ?_, ?_, ?_⟩
  · cases name <;> cases description <;> simp
  · cases name <;> cases description <;> simp
  · cases name <;> cases description <;> simp
  · have none : direct.flatMap (fun _ => ([] : List ArgumentForm)) = [] :=
      List.flatMap_eq_nil_iff.mpr fun _ _ => rfl
    cases name <;> cases description <;> simpa [none] using all

end MemberForm

/-- Reads the value of a member, given only the container of its kind. -/
def readMember (container value : String) : Option MemberForm := do
  let marks ← valueMarks value
  let (type, keywords) ← readDeclaration container marks
  let parts ← keywords.mapM readPart
  return .ofParts type parts

end Reader

section Texts

theorem unescape_other {c : Char} (plain : c ≠ '\\') (rest : List Char) :
    unescape (c :: rest) = c :: unescape rest := by
  rw [unescape.eq_def]
  split
  · rename_i head
    cases head
  · rename_i head
    exact absurd (List.cons.inj head).1 plain
  · rename_i head
    cases head
    rfl

theorem unescape_escapeChar (c : Char) (rest : List Char) :
    unescape (Literal.escapeChar c ++ rest) = c :: unescape rest := by
  unfold Literal.escapeChar
  split
  · subst c
    rfl
  split
  · subst c
    rfl
  split
  · subst c
    rfl
  split
  · subst c
    rfl
  · rename_i plain _ _ _
    exact unescape_other plain rest

theorem unescape_escaped (text : List Char) :
    unescape (text.flatMap Literal.escapeChar) = text := by
  induction text with
  | nil => rfl
  | cons c rest ih => rw [List.flatMap_cons, unescape_escapeChar, ih]

theorem textOf_escaped (text : String) :
    textOf (text.toList.flatMap Literal.escapeChar) = text := by
  rw [textOf, unescape_escaped, String.ofList_toList]

end Texts

section Pieces

/-- Marks that make up a piece of their own. -/
def Whole (marks : List Mark) : Prop :=
  marks ≠ [] ∧ Holds 0 marks

theorem whole_mark {mark : Mark} (other : mark ≠ .sign ',')
    (level : ∀ depth, depthAfter depth mark = depth) : Whole [mark] :=
  ⟨by simp, holds_mark (.inr other) level⟩

theorem whole_keyword {keyword : String × List Mark} (value : Whole keyword.2) :
    Whole (keywordMarks keyword) := by
  have word : Holds 0 [.word keyword.1] := holds_mark (.inr (by simp)) fun _ => rfl
  have equals : Holds 0 [.sign '='] := holds_mark (.inr (by simp)) fun _ => rfl
  exact ⟨by simp [keywordMarks], word.append (equals.append value.2)⟩

theorem whole_entry {entry : List Char × List Mark} (value : Whole entry.2) :
    Whole (entryMarks entry) := by
  have key : Holds 0 [.text entry.1] := holds_mark (.inr (by simp)) fun _ => rfl
  have colon : Holds 0 [.sign ':'] := holds_mark (.inr (by simp)) fun _ => rfl
  exact ⟨by simp [entryMarks], key.append (colon.append value.2)⟩

theorem whole_call (head : String) {arguments : List (List Mark)}
    (each : ∀ argument ∈ arguments, Whole argument) : Whole (callMarks head arguments) := by
  have word : Holds 0 [.word head] := holds_mark (.inr (by simp)) fun _ => rfl
  have brackets := holds_enclosed '(' ')' (by simp)
    (holds_joined fun argument listed => (each argument listed).2)
  exact ⟨by simp [callMarks], word.append brackets⟩

theorem whole_mapping {entries : List (List Char × List Mark)}
    (each : ∀ entry ∈ entries, Whole entry.2) : Whole (mappingMarks entries) := by
  refine ⟨by simp [mappingMarks], holds_enclosed _ _ (by simp) (holds_joined ?_)⟩
  intro piece member
  obtain ⟨entry, listed, rfl⟩ := List.mem_map.mp member
  exact (whole_entry (each entry listed)).2

theorem piecesOf_joined {pieces : List (List Mark)} (each : ∀ piece ∈ pieces, Whole piece) :
    piecesOf (joined pieces) = pieces := by
  cases pieces with
  | nil => rfl
  | cons first rest =>
      have filled : joined (first :: rest) ≠ [] := by
        rw [joined_cons]
        simp [(each first (by simp)).1]
      rw [piecesOf, if_neg (by simpa using filled),
        splitMarks_joined (by simp) fun piece member => (each piece member).2]

theorem readCall_callMarks (head : String) {arguments : List (List Mark)}
    (each : ∀ argument ∈ arguments, Whole argument) :
    readCall (callMarks head arguments) = some (head, arguments) := by
  simp [readCall, callMarks, piecesOf_joined each]

end Pieces

section Declarations

theorem readType_leaf (name : String) {rest : List Mark}
    (closed : rest.head? ≠ some (.sign '(')) :
    readType (.word name :: rest) = some (.leaf name) := by
  rw [readType]
  intro inner same
  rw [same] at closed
  exact closed rfl

theorem readType_phrase (type : TypeRef) (rest : List Mark)
    (closed : rest.head? ≠ some (.sign '(')) :
    readType ((typePhrase type).marks ++ rest) = some (type.map Name.text) := by
  have wraps : ∀ (item : TypeRef) (head : String) (rest : List Mark),
      (Phrase.call head [typePhrase item]).marks ++ rest =
        .word head :: .sign '(' :: ((typePhrase item).marks ++ .sign ')' :: rest) := by
    intro item head rest
    simp [Phrase.call, callMarks, joined]
  -- The rest is free: an item is followed by the bracket of the wrapper around it.
  induction type generalizing rest with
  | leaf name => exact readType_leaf name.text closed
  | list item ih =>
      rw [typePhrase, wraps, readType, if_pos rfl, ih _ (by simp)]
      rfl
  | nonNull item ih =>
      rw [typePhrase, wraps, readType, if_neg (by decide), if_pos rfl, ih _ (by simp)]
      rfl

theorem readOperand_type (wrap : TypeExpr String → TypeExpr String) (type : TypeRef)
    (keywords : List (List Mark)) :
    readOperand wrap ((typePhrase type).marks :: keywords) =
      some (wrap (type.map Name.text), keywords) := by
  have read := readType_phrase type [] (by simp)
  rw [List.append_nil] at read
  simp [readOperand, read]

theorem whole_type (type : TypeRef) : Whole (typePhrase type).marks := by
  induction type with
  | leaf name => exact whole_mark (by simp) fun _ => rfl
  | list item ih => exact whole_call "List" (by simpa using ih)
  | nonNull item ih => exact whole_call "NonNull" (by simpa using ih)

theorem Declarator.whole_arguments (declarator : Declarator) {keywords : List (String × Phrase)}
    (values : ∀ keyword ∈ keywords, Whole keyword.2.marks) :
    ∀ argument ∈ (declarator.operand.toList.map typePhrase ++
      keywords.map Phrase.keyword).map Phrase.marks, Whole argument := by
  intro argument member
  obtain ⟨phrase, listed, rfl⟩ := List.mem_map.mp member
  rcases List.mem_append.mp listed with first | later
  · obtain ⟨type, _, rfl⟩ := List.mem_map.mp first
    exact whole_type type
  · obtain ⟨keyword, known, rfl⟩ := List.mem_map.mp later
    exact whole_keyword (values keyword known)

theorem Declarator.whole_phrase {declarator : Declarator} {keywords : List (String × Phrase)}
    (values : ∀ keyword ∈ keywords, Whole keyword.2.marks) :
    Whole (declarator.phrase keywords).marks :=
  whole_call declarator.head (declarator.whole_arguments values)

theorem Declarator.readCall_phrase {declarator : Declarator} {keywords : List (String × Phrase)}
    (values : ∀ keyword ∈ keywords, Whole keyword.2.marks) :
    readCall (declarator.phrase keywords).marks =
      some (declarator.head, declarator.operand.toList.map (fun type => (typePhrase type).marks) ++
        keywords.map fun keyword => (Phrase.keyword keyword).marks) := by
  have call := readCall_callMarks declarator.head (declarator.whole_arguments values)
  simpa [Declarator.phrase, Phrase.call, Function.comp_def] using call

/-- Names that no container has. -/
def fixedHeads : List String := "List" :: "NonNull" :: builtinScalars

theorem readDeclaration_container {container : String} (fresh : container ∉ fixedHeads)
    (type : TypeRef) {keywords : List (String × Phrase)}
    (values : ∀ keyword ∈ keywords, Whole keyword.2.marks) :
    readDeclaration container (Declarator.phrase ⟨container, some type⟩ keywords).marks =
      some (type.map Name.text, keywords.map fun keyword => (Phrase.keyword keyword).marks) := by
  simp only [fixedHeads, List.mem_cons, not_or] at fresh
  simp [readDeclaration, Declarator.readCall_phrase values, fresh, readOperand_type]

theorem readDeclaration_outer {container : String} (fresh : container ∉ fixedHeads)
    (type : TypeRef) {keywords : List (String × Phrase)}
    (values : ∀ keyword ∈ keywords, Whole keyword.2.marks) :
    readDeclaration container ((Declarator.outer container type).phrase keywords).marks =
      some (type.map Name.text, keywords.map fun keyword => (Phrase.keyword keyword).marks) := by
  cases type with
  | leaf name =>
      by_cases builtin : isBuiltinScalar name.text = true
      · -- A built-in scalar is called itself, and no wrapper or container has its name.
        have scalar : name.text ∈ builtinScalars := by simpa [isBuiltinScalar] using builtin
        have wrapper : ∀ scalar ∈ builtinScalars, scalar ≠ "List" ∧ scalar ≠ "NonNull" := by decide
        have other : name.text ≠ container := by
          intro same
          exact fresh (same ▸ List.mem_cons_of_mem _ (List.mem_cons_of_mem _ scalar))
        simp [readDeclaration, Declarator.outer, builtin, Declarator.readCall_phrase values,
          wrapper name.text scalar, other, TypeExpr.map]
      · have read := readDeclaration_container fresh (.leaf name) values
        simpa [Declarator.outer, builtin] using read
  | list item =>
      simp [readDeclaration, Declarator.outer, Declarator.readCall_phrase values, readOperand_type,
        TypeExpr.map]
  | nonNull item =>
      simp [readDeclaration, Declarator.outer, Declarator.readCall_phrase values, readOperand_type,
        TypeExpr.map]

end Declarations

section Members

def argumentForm (settings : Settings) (argument : InputValue) : ArgumentForm :=
  ⟨argument.name.text, argument.type.map Name.text, settings.described argument.description⟩

theorem whole_descriptions (settings : Settings) (description : Option String) :
    ∀ entry ∈ descriptionPhrases settings description, Whole entry.2.marks := by
  intro entry member
  obtain ⟨text, _, rfl⟩ := descriptionPhrases_spec member
  exact whole_mark (by simp) fun _ => rfl

theorem whole_argument (settings : Settings) (reserved : List String) (argument : InputValue) :
    Whole (argumentPhrase settings reserved argument).marks :=
  Declarator.whole_phrase (whole_descriptions settings argument.description)

theorem readDescription_phrases (settings : Settings) (description : Option String) :
    readDescription ((descriptionPhrases settings description).map fun keyword =>
      (Phrase.keyword keyword).marks) = some (settings.described description) := by
  unfold descriptionPhrases
  cases settings.described description with
  | none => rfl
  | some text =>
      simp [Phrase.keyword, Phrase.quoted, keywordMarks, readDescription, textOf_escaped]

theorem readArgument_phrase (settings : Settings) (reserved : List String) (argument : InputValue) :
    readArgument argument.name.text (argumentPhrase settings reserved argument).marks =
      some (argumentForm settings argument) := by
  have values := whole_descriptions settings argument.description
  have declared : readDeclaration "Argument" (argumentPhrase settings reserved argument).marks =
      some (argument.type.map Name.text,
        (descriptionPhrases settings argument.description).map fun keyword =>
          (Phrase.keyword keyword).marks) := by
    unfold argumentPhrase argumentDeclarator
    split
    · exact readDeclaration_container (by decide) argument.type values
    · exact readDeclaration_outer (by decide) argument.type values
  simp [readArgument, declared, readDescription_phrases, argumentForm]

theorem mapM_some {A B C : Type} {read : B → Option C} {write : A → B} {value : A → C}
    {items : List A} (each : ∀ item ∈ items, read (write item) = some (value item)) :
    (items.map write).mapM read = some (items.map value) := by
  induction items with
  | nil => rfl
  | cons item rest ih =>
      have others := ih fun other member => each other (by simp [member])
      simp [List.mapM_cons, each item (by simp), others]

theorem mapM_append_some {B C : Type} {read : B → Option C} {first second : List B}
    {values more : List C} (head : first.mapM read = some values)
    (tail : second.mapM read = some more) :
    (first ++ second).mapM read = some (values ++ more) := by
  simp [List.mapM_append, head, tail]

theorem readPart_text (name text : String) :
    readPart (Phrase.keyword (name, .quoted text)).marks =
      some (if name = "name" then .name text else .description text) := by
  simp only [readPart, Phrase.keyword, Phrase.quoted, keywordMarks, readKeyword,
    Option.bind_eq_bind, Option.bind_some, textOf_escaped]
  split <;> rfl

theorem readPart_direct (settings : Settings) (reserved : List String) (argument : InputValue) :
    readPart (Phrase.keyword (argumentEntry settings reserved argument)).marks =
      some (.direct (argumentForm settings argument)) := by
  have read := readArgument_phrase settings reserved argument
  -- The value is a call, so it is taken neither for a text nor for a mapping.
  have shape : ∃ head rest, (argumentPhrase settings reserved argument).marks =
      .word head :: .sign '(' :: rest := ⟨_, _, rfl⟩
  obtain ⟨head, rest, shape⟩ := shape
  rw [shape] at read
  simp [readPart, Phrase.keyword, argumentEntry, shape, keywordMarks, readKeyword, read]

theorem readEntry_argument (settings : Settings) (reserved : List String) (argument : InputValue) :
    readEntry (entryMarks (argument.name.text.toList.flatMap Literal.escapeChar,
      (argumentPhrase settings reserved argument).marks)) =
        some (argumentForm settings argument) := by
  rw [entryMarks, readEntry, textOf_escaped]
  exact readArgument_phrase settings reserved argument

theorem readPart_mapping (settings : Settings) (reserved : List String)
    (arguments : List InputValue) :
    readPart (Phrase.keyword ("args",
      .mapping (arguments.map (argumentEntry settings reserved)))).marks =
        some (.mapped (arguments.map (argumentForm settings))) := by
  let entry := fun argument : InputValue =>
    entryMarks (argument.name.text.toList.flatMap Literal.escapeChar,
      (argumentPhrase settings reserved argument).marks)
  have whole : ∀ piece ∈ arguments.map entry, Whole piece := by
    intro piece member
    obtain ⟨argument, _, rfl⟩ := List.mem_map.mp member
    exact whole_entry (whole_argument settings reserved argument)
  have pieces := piecesOf_joined whole
  have read : (arguments.map entry).mapM readEntry = some (arguments.map (argumentForm settings)) :=
    mapM_some fun argument _ => readEntry_argument settings reserved argument
  have marks : (Phrase.keyword ("args",
      .mapping (arguments.map (argumentEntry settings reserved)))).marks =
        .word "args" :: .sign '=' :: .sign '\x7b' ::
          (joined (arguments.map entry) ++ [.sign '\x7d']) := by
    simp [Phrase.keyword, keywordMarks, Phrase.mapping, mappingMarks, argumentEntry, entry,
      Function.comp_def]
  rw [marks]
  simp [readPart, readKeyword, pieces, read]

namespace Member

/-- All that the value of a member tells. -/
def form (settings : Settings) (member : Member) : MemberForm :=
  let taken := (member.ownKeywords settings).map Keyword.name
  { type := member.type.map Name.text
    name := if needsExplicitName member.name then some member.name else none
    description := settings.described member.description
    direct := (member.arguments.filter fun argument =>
      !isColliding argument.name.text taken).map (argumentForm settings)
    mapped := (member.arguments.filter fun argument =>
      isColliding argument.name.text taken).map (argumentForm settings) }

theorem form_eq (settings : Settings) (member : Member) :
    member.form settings =
      { type := member.type.map Name.text
        name := member.explicitName
        description := settings.described member.description
        direct := (member.direct settings).map (argumentForm settings)
        mapped := (member.mapped settings).map (argumentForm settings) } := by
  simp only [form, reserved_eq]
  rfl

theorem whole_keywords (settings : Settings) (member : Member) :
    ∀ entry ∈ member.keywordPhrases settings, Whole entry.2.marks := by
  intro entry listed
  rcases mem_keywordPhrases listed with ⟨name, _, rfl⟩ | ⟨text, _, rfl⟩ | ⟨argument, _, rfl⟩ |
    ⟨mapped, _, rfl, inside⟩
  · exact whole_mark (by simp) fun _ => rfl
  · exact whole_mark (by simp) fun _ => rfl
  · exact whole_argument settings _ argument
  · apply whole_mapping
    intro marks member
    obtain ⟨entry, known, rfl⟩ := List.mem_map.mp member
    obtain ⟨argument, _, rfl⟩ := inside entry known
    exact whole_argument settings _ argument

theorem readParts {settings : Settings} {member : Member}
    (distinct : (member.arguments.map fun argument => argument.name.text).Nodup) :
    ((member.keywordPhrases settings).map fun keyword => (Phrase.keyword keyword).marks).mapM
      readPart = some (member.form settings).parts := by
  let write := fun keyword : String × Phrase => (Phrase.keyword keyword).marks
  -- The keywords stand in four groups, and each group is read to its own part of the form.
  have names : ((member.explicitName.toList.map fun name => ("name", Phrase.quoted name)).map
      write).mapM readPart = some (member.explicitName.toList.map .name) := by
    rw [List.map_map]
    exact mapM_some fun name _ => readPart_text "name" name
  have descriptions : ((descriptionPhrases settings member.description).map write).mapM readPart =
      some ((settings.described member.description).toList.map .description) := by
    rw [descriptionPhrases, List.map_map]
    exact mapM_some fun text _ => readPart_text "description" text
  have direct : (((member.direct settings).map
      (argumentEntry settings (member.reserved settings))).map write).mapM readPart =
        some (((member.direct settings).map (argumentForm settings)).map .direct) := by
    rw [List.map_map, List.map_map]
    exact mapM_some fun argument _ => readPart_direct settings _ argument
  have mapped : ((argsPhrases ((member.mapped settings).map
      (argumentEntry settings (member.reserved settings)))).map write).mapM readPart =
        some (if ((member.mapped settings).map (argumentForm settings)).isEmpty then []
          else [.mapped ((member.mapped settings).map (argumentForm settings))]) := by
    have read := readPart_mapping settings (member.reserved settings) (member.mapped settings)
    cases arguments : (member.mapped settings).isEmpty with
    | true => simp [argsPhrases, arguments]
    | false => simp [argsPhrases, arguments, write, read, List.mapM_cons]
  show ((member.keywordPhrases settings).map write).mapM readPart = _
  rw [form_eq, keywordPhrases_eq distinct, ownPhrases, List.map_append, List.map_append,
    List.map_append]
  exact mapM_append_some (mapM_append_some (mapM_append_some names descriptions) direct) mapped

theorem readMember_phrase {settings : Settings} {member : Member}
    (distinct : (member.arguments.map fun argument => argument.name.text).Nodup) :
    readMember member.container (member.phrase settings).text = some (member.form settings) := by
  have fresh : member.container ∉ fixedHeads := by
    cases member with
    | field source =>
        show "Field" ∉ fixedHeads
        decide
    | input source =>
        show "InputField" ∉ fixedHeads
        decide
  have declared : readDeclaration member.container (member.phrase settings).marks =
      some (member.type.map Name.text, (member.keywordPhrases settings).map fun keyword =>
        (Phrase.keyword keyword).marks) :=
    readDeclaration_outer fresh member.type (member.whole_keywords settings)
  simp only [readMember, valueMarks_phrase, declared, readParts distinct, Option.bind_eq_bind,
    Option.bind_some, Option.pure_def]
  exact congrArg some (MemberForm.ofParts_parts (member.form settings))

/-- The two lists of arguments are all the arguments. -/
theorem form_arguments (settings : Settings) (member : Member) :
    ((member.form settings).direct ++ (member.form settings).mapped).Perm
      (member.arguments.map (argumentForm settings)) := by
  rw [form_eq, ← List.map_append]
  apply List.Perm.map
  have both := List.filter_append_perm
    (fun argument => !isColliding argument.name.text (member.reserved settings)) member.arguments
  simpa [direct, mapped, directArguments, Member.mapped, mappedArguments] using both

/-- In every context the value of a member tells the member's type, its explicit name, its
description and its arguments, split into those that collide and those that do not. -/
theorem toAttribute_reads_back (settings : Settings) (context : Context) (member : Member)
    (anyArgument : settings.scalarArgumentsOnly = false)
    (distinct : (member.arguments.map fun argument => argument.name.text).Nodup) :
    ∃ result, ((member.toAttribute settings).runIn context).1 = .ok result ∧
      readMember member.container result.value = some (member.form settings) ∧
      ((member.form settings).direct ++ (member.form settings).mapped).Perm
        (member.arguments.map (argumentForm settings)) := by
  have written := toAttribute_eq (member.admitted_of_open anyArgument)
  refine ⟨⟨attributeName member.name, (member.phrase settings).text⟩, ?_, ?_, ?_⟩
  · rw [written]
    rfl
  · exact readMember_phrase distinct
  · exact form_arguments settings member

/-- A description that looks like keywords, types named like constructors, and an argument
named like a keyword of the constructor. -/
def trickyField : Member :=
  .field
    { name := named "_x"
      description := some "it\x27s \\ \n\x27, name=\x27y\x27)"
      arguments :=
        [⟨named "name", some ")", .nonNull (.leaf (named "Argument"))⟩,
          ⟨named "first", none, .list (.leaf (named "List"))⟩]
      type := .leaf (named "Field") }

theorem trickyField_reads_back :
    (trickyField.arguments.map fun argument => argument.name.text).Nodup ∧
      ∃ result, ((trickyField.toAttribute {}).runIn {}).1 = .ok result ∧
        readMember "Field" result.value = some
          { type := .leaf "Field"
            name := some "_x"
            description := some "it\x27s \\ \n\x27, name=\x27y\x27)"
            direct := [⟨"first", .list (.leaf "List"), none⟩]
            mapped := [⟨"name", .nonNull (.leaf "Argument"), some ")"⟩] } := by
  have distinct : (trickyField.arguments.map fun argument => argument.name.text).Nodup := by decide
  obtain ⟨result, made, read, _⟩ := toAttribute_reads_back {} {} trickyField rfl distinct
  exact ⟨distinct, result, made, read⟩

end Member

end Members

end SchemaClasses.Build
