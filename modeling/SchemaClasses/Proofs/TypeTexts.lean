import SchemaClasses.Proofs.ReadBack
import SchemaClasses.Proofs.UniqueReading

/-!
Types told apart by their texts. A bare expression ends where what follows neither prolongs a
name nor calls it, so whatever text is handed to a declaration starts at the comma after the
expression. The head of a declaration tells which of its three shapes it has.
-/

namespace SchemaClasses.Build

open Schema Naming Output

section Expressions

/-- What follows neither prolongs a name nor calls it. -/
def Settled (rest : List Char) : Prop :=
  Parted rest ∧ rest.head? ≠ some '('

theorem settled_cons {c : Char} (outside : isNamePart c = false) (closed : c ≠ '(')
    (rest : List Char) : Settled (c :: rest) :=
  ⟨parted_cons outside rest, by simpa using closed⟩

theorem call_chars (head : String) (item : TypeRef) (rest : List Char) :
    (Phrase.call head [typePhrase item]).text.toList ++ rest =
      head.toList ++ '(' :: ((typePhrase item).text.toList ++ ')' :: rest) := by
  simp [Phrase.call]

/-- A name that is not called is no call, even if it is the name of a wrapper. -/
theorem name_ne_call (name : Name) {head : String} (spelled : Spelled head)
    {rest others : List Char} (settled : Settled rest) :
    name.text.toList ++ rest ≠ head.toList ++ '(' :: others := by
  intro same
  have name : Spelled name.text := name.spelled
  obtain ⟨_, called⟩ := cuts_nameParts.cut name.parts spelled.parts settled.1
    (parted_cons (by decide) others) same
  exact settled.2 (by simp [called])

theorem name_ext {first second : Name} (same : first.text = second.text) : first = second := by
  cases first
  cases second
  cases same
  rfl

theorem cuts_type :
    Cuts (fun type : TypeRef => (typePhrase type).text.toList) id (fun _ => True) Settled := by
  have inner : ∀ rest, Settled (')' :: rest) := settled_cons (by decide) (by decide)
  have list : Spelled "List" := by decide
  have nonNull : Spelled "NonNull" := by decide
  constructor
  intro first second rest others _ _ settled alsoSettled same
  -- Both types are taken apart at once. What follows an item is the bracket of its wrapper.
  induction first generalizing second rest others with
  | leaf name =>
      cases second with
      | leaf other =>
          have spelled : Spelled name.text := name.spelled
          have alsoSpelled : Spelled other.text := other.spelled
          obtain ⟨texts, left⟩ := cuts_nameParts.cut spelled.parts alsoSpelled.parts settled.1
            alsoSettled.1 same
          exact ⟨congrArg TypeExpr.leaf (name_ext texts), left⟩
      | list item => exact absurd (same.trans (call_chars _ _ _)) (name_ne_call name list settled)
      | nonNull item =>
          exact absurd (same.trans (call_chars _ _ _)) (name_ne_call name nonNull settled)
  | list item ih =>
      have called := (call_chars "List" item rest).symm.trans same
      cases second with
      | leaf other => exact absurd called.symm (name_ne_call other list alsoSettled)
      | list other =>
          rw [typePhrase, call_chars, List.append_cancel_left_eq, List.cons.injEq] at called
          obtain ⟨items, left⟩ := ih (inner rest) (inner others) called.2
          exact ⟨congrArg TypeExpr.list items, (List.cons.inj left).2⟩
      | nonNull other =>
          rw [typePhrase, call_chars] at called
          simp at called
  | nonNull item ih =>
      have called := (call_chars "NonNull" item rest).symm.trans same
      cases second with
      | leaf other => exact absurd called.symm (name_ne_call other nonNull alsoSettled)
      | list other =>
          rw [typePhrase, call_chars] at called
          simp at called
      | nonNull other =>
          rw [typePhrase, call_chars, List.append_cancel_left_eq, List.cons.injEq] at called
          obtain ⟨items, left⟩ := ih (inner rest) (inner others) called.2
          exact ⟨congrArg TypeExpr.nonNull items, (List.cons.inj left).2⟩

theorem typeText_injective {first second : TypeRef}
    (same : (typePhrase first).text = (typePhrase second).text) : first = second := by
  have ended : Settled [] := ⟨by simp [Parted], by simp⟩
  have texts := congrArg (fun text => String.toList text ++ []) same
  exact (cuts_type.cut trivial trivial ended ended texts).1

end Expressions

section Declarations

/-- What stands between the brackets of a declaration, with any text for its keywords. -/
def Declarator.inside (declarator : Declarator) (keywords : String) : String :=
  match declarator.operand with
  | none => keywords
  | some type => (typePhrase type).text ++ trailing keywords

def Declarator.textWith (declarator : Declarator) (keywords : String) : String :=
  declarator.head ++ "(" ++ declarator.inside keywords ++ ")"

theorem declareType_outcome (container keywords : String) (type : TypeRef) :
    (declareType (TypeRef.tree type) keywords container).outcome =
      .ok ((Declarator.outer container type).textWith keywords) := by
  cases type with
  | leaf name =>
      by_cases builtin : isBuiltinScalar name.text = true
      · simp [TypeRef.tree, TypeExpr.map, declareType, builtin, Declarator.outer,
          Declarator.textWith, Declarator.inside]
      · simp [TypeRef.tree, TypeExpr.map, declareType, builtin, Declarator.outer,
          Declarator.textWith, Declarator.inside, typePhrase, Phrase.word, String.append_assoc]
  | list item =>
      have inner := resolveType_tree item
      simp only [TypeRef.tree] at inner
      simp only [TypeRef.tree, TypeExpr.map, declareType, inner]
      simp [Declarator.outer, Declarator.textWith, Declarator.inside, String.append_assoc]
  | nonNull item =>
      have inner := resolveType_tree item
      simp only [TypeRef.tree] at inner
      simp only [TypeRef.tree, TypeExpr.map, declareType, inner]
      simp [Declarator.outer, Declarator.textWith, Declarator.inside, String.append_assoc]

theorem trailing_settled (keywords : String) : Settled (trailing keywords).toList := by
  unfold trailing
  split
  · exact ⟨by simp [Parted], by simp⟩
  · rw [String.toList_append]
    exact settled_cons (by decide) (by decide) _

theorem trailing_injective {first second : String} (same : trailing first = trailing second) :
    first = second := by
  unfold trailing at same
  by_cases none : first.isEmpty = true <;> by_cases alsoNone : second.isEmpty = true
  · rw [String.isEmpty_iff.mp none, String.isEmpty_iff.mp alsoNone]
  · have chars := congrArg String.toList same
    simp [none, alsoNone] at chars
  · have chars := congrArg String.toList same
    simp [none, alsoNone] at chars
  · have chars := congrArg String.toList same
    rw [if_neg none, if_neg alsoNone, String.toList_append, String.toList_append,
      List.append_cancel_left_eq] at chars
    exact String.toList_inj.mp chars

/-- Declarations of one shape are told apart by what stands between their brackets. -/
theorem Declarator.inside_injective {first second : Declarator} {keywords others : String}
    (alike : first.operand.isSome = second.operand.isSome)
    (same : first.inside keywords = second.inside others) :
    first.operand = second.operand ∧ keywords = others := by
  unfold Declarator.inside at same
  cases operand : first.operand with
  | none =>
      cases other : second.operand with
      | none => exact ⟨rfl, by simpa [operand, other] using same⟩
      | some type => simp [operand, other] at alike
  | some type =>
      cases other : second.operand with
      | none => simp [operand, other] at alike
      | some otherType =>
          have chars := congrArg String.toList same
          simp only [operand, other, String.toList_append] at chars
          obtain ⟨types, left⟩ := cuts_type.cut trivial trivial (trailing_settled keywords)
            (trailing_settled others) chars
          exact ⟨congrArg some types, trailing_injective (String.toList_inj.mp left)⟩

theorem Declarator.textWith_injective {first second : Declarator} {keywords others : String}
    (head : Spelled first.head) (alsoHead : Spelled second.head)
    (same : first.textWith keywords = second.textWith others) :
    first.head = second.head ∧ first.inside keywords = second.inside others := by
  have shape : ∀ (declarator : Declarator) (keywords : String),
      (declarator.textWith keywords).toList =
        declarator.head.toList ++ '(' :: ((declarator.inside keywords).toList ++ [')']) := by
    intro declarator keywords
    simp [Declarator.textWith]
  have chars := congrArg String.toList same
  rw [shape, shape] at chars
  obtain ⟨heads, called⟩ := cuts_nameParts.cut head.parts alsoHead.parts
    (parted_cons (by decide) _) (parted_cons (by decide) _) chars
  rw [List.cons.injEq, List.append_cancel_right_eq] at called
  exact ⟨heads, String.toList_inj.mp called.2⟩

/-- Only a built-in scalar is called without an operand. -/
theorem Declarator.outer_operand_isSome {container : String} (fresh : container ∉ fixedHeads)
    (type : TypeRef) :
    (outer container type).operand.isSome = !isBuiltinScalar (outer container type).head := by
  have other : isBuiltinScalar container = false := by
    simp only [fixedHeads, List.mem_cons, not_or] at fresh
    simpa [isBuiltinScalar] using fresh.2.2
  cases type with
  | leaf name =>
      by_cases builtin : isBuiltinScalar name.text = true
      · simp [outer, builtin]
      · simp [outer, builtin, other]
  | list item => rfl
  | nonNull item => rfl

theorem Declarator.outer_leaf_head {container : String} (fresh : container ∉ fixedHeads)
    (name : Name) :
    (outer container (.leaf name)).head ≠ "List" ∧
      (outer container (.leaf name)).head ≠ "NonNull" := by
  have scalars : ∀ scalar ∈ builtinScalars, scalar ≠ "List" ∧ scalar ≠ "NonNull" := by decide
  simp only [fixedHeads, List.mem_cons, not_or] at fresh
  by_cases builtin : isBuiltinScalar name.text = true
  · simpa [outer, builtin] using scalars name.text (by simpa [isBuiltinScalar] using builtin)
  · simpa [outer, builtin] using ⟨fresh.1, fresh.2.1⟩

theorem Declarator.outer_injective {container : String} (fresh : container ∉ fixedHeads)
    {first second : TypeRef} (same : outer container first = outer container second) :
    first = second := by
  have heads := congrArg Declarator.head same
  cases first with
  | leaf name =>
      cases second with
      | leaf other =>
          by_cases builtin : isBuiltinScalar name.text = true <;>
            by_cases alsoBuiltin : isBuiltinScalar other.text = true
          · simp only [outer, builtin, alsoBuiltin, if_true, Declarator.mk.injEq] at same
            exact congrArg TypeExpr.leaf (name_ext same.1)
          · simp [outer, builtin, alsoBuiltin] at same
          · simp [outer, builtin, alsoBuiltin] at same
          · simpa [outer, builtin, alsoBuiltin] using same
      | list item => exact absurd heads (outer_leaf_head fresh name).1
      | nonNull item => exact absurd heads (outer_leaf_head fresh name).2
  | list item =>
      cases second with
      | leaf other => exact absurd heads.symm (outer_leaf_head fresh other).1
      | list other => simpa [outer] using same
      | nonNull other => simp [outer] at same
  | nonNull item =>
      cases second with
      | leaf other => exact absurd heads.symm (outer_leaf_head fresh other).2
      | list other => simp [outer] at same
      | nonNull other => simpa [outer] using same

theorem declarationText_injective {container : String} (spelled : Spelled container)
    (fresh : container ∉ fixedHeads) {first second : TypeRef} {keywords others : String}
    (same : (Declarator.outer container first).textWith keywords =
      (Declarator.outer container second).textWith others) :
    first = second ∧ keywords = others := by
  have spelledHead := Declarator.outer_head_spelled spelled
  obtain ⟨heads, insides⟩ :=
    Declarator.textWith_injective (spelledHead first) (spelledHead second) same
  have alike : (Declarator.outer container first).operand.isSome =
      (Declarator.outer container second).operand.isSome := by
    rw [Declarator.outer_operand_isSome fresh, Declarator.outer_operand_isSome fresh, heads]
  obtain ⟨operands, texts⟩ := Declarator.inside_injective alike insides
  have declarators : Declarator.outer container first = Declarator.outer container second := by
    cases outer : Declarator.outer container first
    cases other : Declarator.outer container second
    simp_all
  exact ⟨Declarator.outer_injective fresh declarators, texts⟩

end Declarations

section Texts

/-- What a user-defined type is put in, by where its declaration stands. -/
def containers : List String := ["Field", "InputField", "Argument"]

theorem containers_fresh :
    ∀ container ∈ containers, Spelled container ∧ container ∉ fixedHeads := by decide

/-- In every context a type has a bare text and, with any keywords, a declaration, and these
are the texts of no other type and of no other keywords. -/
theorem types_told_apart (first second : TypeRef) (context other : Context) :
    (∃ text, ((resolveType (TypeRef.tree first)).runIn context).1 = .ok text) ∧
    (((resolveType (TypeRef.tree first)).runIn context).1 =
      ((resolveType (TypeRef.tree second)).runIn other).1 ↔ first = second) ∧
    ∀ container ∈ containers, ∀ keywords others : String,
      (∃ text, ((declareType (TypeRef.tree first) keywords container).runIn context).1 =
        .ok text) ∧
      (((declareType (TypeRef.tree first) keywords container).runIn context).1 =
        ((declareType (TypeRef.tree second) others container).runIn other).1 ↔
          first = second ∧ keywords = others) := by
  simp only [Recorded.runIn, resolveType_tree, declareType_outcome, Except.ok.injEq]
  refine ⟨⟨_, rfl⟩, ⟨typeText_injective, fun same => by rw [same]⟩, ?_⟩
  intro container known keywords others
  obtain ⟨spelled, fresh⟩ := containers_fresh container known
  refine ⟨⟨_, rfl⟩, declarationText_injective spelled fresh, ?_⟩
  rintro ⟨rfl, rfl⟩
  rfl

/-- A type that is named like the container, with a text that looks like another declaration of
it. No list is ever declared so. -/
theorem fieldType_told_apart :
    let field : TypeRef := .leaf (named "Field")
    "Field" ∈ containers ∧
    ((declareType (TypeRef.tree field) "Field(Field)" "Field").runIn {}).1 =
      .ok "Field(Field, Field(Field))" ∧
    ∀ others, ((declareType (TypeRef.tree (.list field)) others "Field").runIn {}).1 ≠
      .ok "Field(Field, Field(Field))" := by
  intro field
  have known : "Field" ∈ containers := by decide
  have declared : ((declareType (TypeRef.tree field) "Field(Field)" "Field").runIn {}).1 =
      .ok "Field(Field, Field(Field))" := rfl
  refine ⟨known, declared, ?_⟩
  intro others same
  obtain ⟨_, _, apart⟩ := types_told_apart field (.list field) {} {}
  obtain ⟨types, _⟩ := (apart "Field" known "Field(Field)" others).2.mp (declared.trans same.symm)
  cases types

end Texts

end SchemaClasses.Build
