import Mathlib.Data.List.Chain
import SchemaClasses.Proofs.Names

/-!
Which names come back from their attributes. In snake case every second capital of a run is
set apart, from the first one on if something stands before the run, and only a capital that
was set apart is one again in camel case. So a name without underscores comes back exactly if
no capital comes first or follows another one, and it is not a keyword.
-/

namespace SchemaClasses.Naming

open Schema Text

section Pieces

theorem splitAtChar_filled (separator : Char) (text : List Char) :
    splitAtChar separator text ≠ [] := by
  cases text with
  | nil => simp [splitAtChar]
  | cons c rest =>
      rw [splitAtChar]
      split
      · simp
      · split <;> simp

/-- A character that does not separate belongs to the first piece of what follows it. -/
theorem splitAtChar_other {separator c : Char} (other : c ≠ separator) (rest : List Char) :
    ∃ piece pieces, splitAtChar separator rest = piece :: pieces ∧
      splitAtChar separator (c :: rest) = (c :: piece) :: pieces := by
  obtain ⟨piece, pieces, shape⟩ := List.exists_cons_of_ne_nil (splitAtChar_filled separator rest)
  refine ⟨piece, pieces, shape, ?_⟩
  rw [splitAtChar, if_neg other, shape]

theorem mem_of_mem_splitAtChar {separator c : Char} {text piece : List Char}
    (listed : piece ∈ splitAtChar separator text) (inside : c ∈ piece) : c ∈ text := by
  induction text generalizing piece with
  | nil =>
      obtain rfl : piece = [] := by simpa [splitAtChar] using listed
      cases inside
  | cons first rest ih =>
      by_cases same : first = separator
      · rw [splitAtChar, if_pos same] at listed
        rcases List.mem_cons.mp listed with rfl | later
        · cases inside
        · exact List.mem_cons_of_mem first (ih later inside)
      · obtain ⟨head, others, shape, split⟩ := splitAtChar_other same rest
        rw [split] at listed
        rw [shape] at ih
        rcases List.mem_cons.mp listed with rfl | later
        · rcases List.mem_cons.mp inside with rfl | within
          · exact List.mem_cons_self
          · exact List.mem_cons_of_mem first (ih List.mem_cons_self within)
        · exact List.mem_cons_of_mem first (ih (List.mem_cons_of_mem head later) inside)

theorem splitAtChar_concat (separator : Char) (text : List Char) :
    splitAtChar separator (text ++ [separator]) = splitAtChar separator text ++ [[]] := by
  induction text with
  | nil => simp [splitAtChar]
  | cons first rest ih =>
      by_cases same : first = separator
      · rw [List.cons_append, splitAtChar, if_pos same, ih, splitAtChar, if_pos same,
          List.cons_append]
      · obtain ⟨piece, pieces, shape, split⟩ := splitAtChar_other same rest
        rw [List.cons_append, splitAtChar, if_neg same, ih, shape, split]
        rfl

end Pieces

section CamelCase

theorem camelChars_cons {c : Char} (other : c ≠ '_') (rest : List Char) :
    camelChars (c :: rest) = c :: camelChars rest := by
  obtain ⟨piece, pieces, shape, split⟩ := splitAtChar_other other rest
  rw [camelChars, camelChars, shape, split]
  rfl

/-- What follows an underscore is capitalised. The rest stays as it is if it has no capitals. -/
theorem camelChars_boundary {c : Char} {rest : List Char} (other : c ≠ '_')
    (small : ∀ d ∈ rest, lower d = d) :
    camelChars ('_' :: c :: rest) = title c ++ camelChars rest := by
  obtain ⟨piece, pieces, shape, split⟩ := splitAtChar_other other rest
  have kept : piece.map lower = piece := by
    have each : ∀ d ∈ piece, lower d = id d := fun d inside =>
      small d (mem_of_mem_splitAtChar (shape ▸ List.mem_cons_self) inside)
    rw [List.map_congr_left each, List.map_id]
  rw [camelChars, camelChars, splitAtChar, if_pos rfl, split, shape]
  simp [camelComponent, capitalize, kept]

theorem camelChars_plain {text : List Char} (plain : '_' ∉ text) : camelChars text = text := by
  induction text with
  | nil => rfl
  | cons c rest ih =>
      simp only [List.mem_cons, not_or] at plain
      rw [camelChars_cons (Ne.symm plain.1), ih plain.2]

/-- An underscore at the end stays there. -/
theorem camelChars_concat (text : List Char) :
    camelChars (text ++ ['_']) = camelChars text ++ ['_'] := by
  obtain ⟨piece, pieces, shape⟩ := List.exists_cons_of_ne_nil (splitAtChar_filled '_' text)
  rw [camelChars, camelChars, splitAtChar_concat, shape]
  simp [camelComponent]

end CamelCase

section RoundTrip

/-- No capital comes first, and none follows another one. -/
def CamelSpelled (name : List Char) : Prop :=
  name.head?.any isCapital = false ∧
    name.IsChain fun before after => ¬ (isCapital before = true ∧ isCapital after = true)

instance (name : List Char) : Decidable (CamelSpelled name) :=
  inferInstanceAs (Decidable (_ ∧ _))

theorem isWord_of_isNamePart {c : Char} (part : isNamePart c = true) : isWord c = true :=
  of_ascii (fun c => isWord c = true) part (by decide +kernel)

theorem lower_lower {c : Char} (part : isNamePart c = true) : lower (lower c) = lower c :=
  of_ascii (fun c => lower (lower c) = lower c) part (by decide +kernel)

theorem lower_underscore {c : Char} (part : isNamePart c = true) : lower c = '_' ↔ c = '_' :=
  of_ascii (fun c => lower c = '_' ↔ c = '_') part (by decide +kernel)

theorem lower_eq_self {c : Char} (part : isNamePart c = true) :
    lower c = c ↔ isCapital c = false :=
  of_ascii (fun c => lower c = c ↔ isCapital c = false) part (by decide +kernel)

/-- A capital is the title form of its own lower case. -/
theorem title_lower {c : Char} (part : isNamePart c = true) (capital : isCapital c = true) :
    title (lower c) = [c] :=
  of_ascii (fun c => isCapital c = true → title (lower c) = [c]) part (by decide +kernel) capital

theorem camelSpelled_short {c : Char} : CamelSpelled [c] ↔ isCapital c = false := by
  simp [CamelSpelled]

theorem camelSpelled_capital {before capital : Char} (big : isCapital capital = true)
    (rest : List Char) :
    CamelSpelled (before :: capital :: rest) ↔ isCapital before = false ∧ CamelSpelled rest := by
  cases rest with
  | nil => simp [CamelSpelled, big]
  | cons next rest => simp [CamelSpelled, big]

theorem camelSpelled_other {before next : Char} (small : isCapital next = false)
    (rest : List Char) :
    CamelSpelled (before :: next :: rest) ↔
      isCapital before = false ∧ CamelSpelled (next :: rest) := by
  simp [CamelSpelled, small]

theorem small_marked {name : List Char} (parts : ∀ c ∈ name, isNamePart c = true) :
    ∀ d ∈ (markCapitals name).map lower, lower d = d := by
  intro d listed
  obtain ⟨c, inside, rfl⟩ := List.mem_map.mp listed
  rcases mem_markCapitals inside with known | rfl
  · exact lower_lower (parts c known)
  · decide

/-- The induction is on the scan that sets capitals apart: the pair that it takes leaves a
capital that comes back, and a character before it that must not be one. -/
theorem camelChars_marked {name : List Char}
    (parts : ∀ c ∈ name, isNamePart c = true ∧ c ≠ '_') :
    camelChars ((markCapitals name).map lower) = name ↔ CamelSpelled name := by
  fun_induction markCapitals name with
  | case1 before capital rest marked ih =>
      have later := fun c listed => parts c (List.mem_cons_of_mem _ (List.mem_cons_of_mem _ listed))
      have first := parts before (by simp)
      have second := parts capital (by simp)
      have big : isCapital capital = true := (Bool.and_eq_true _ _ ▸ marked).2
      have low : lower '_' = '_' := by decide
      rw [List.map_cons, List.map_cons, List.map_cons, low,
        camelChars_cons (mt (lower_underscore first.1).mp first.2),
        camelChars_boundary (mt (lower_underscore second.1).mp second.2)
          (small_marked fun c listed => (later c listed).1),
        title_lower second.1 big, List.singleton_append, List.cons.injEq, List.cons.injEq,
        lower_eq_self first.1, ih later, camelSpelled_capital big]
      simp
  | case2 before next rest plain ih =>
      have later := fun c listed => parts c (List.mem_cons_of_mem _ listed)
      have first := parts before (by simp)
      have small : isCapital next = false := by
        simpa [isWord_of_isNamePart first.1] using plain
      rw [List.map_cons, camelChars_cons (mt (lower_underscore first.1).mp first.2),
        List.cons.injEq, lower_eq_self first.1, ih later, camelSpelled_other small]
  | case3 short brief =>
      rcases short with _ | ⟨c, _ | ⟨next, rest⟩⟩
      · simp [camelChars, splitAtChar, CamelSpelled]
      · have only := parts c (by simp)
        rw [List.map_cons, camelChars_cons (mt (lower_underscore only.1).mp only.2),
          List.cons.injEq, lower_eq_self only.1, camelSpelled_short]
        simp [camelChars, splitAtChar]
      · exact absurd rfl (brief c next rest)

end RoundTrip

section Keywords

theorem camelCase_snakeCase {name : Name} (plain : '_' ∉ name.text.toList) :
    camelCase (snakeCase name.text) = name.text ↔ CamelSpelled name.text.toList := by
  have parts : ∀ c ∈ name.text.toList, isNamePart c = true ∧ c ≠ '_' := by
    intro c listed
    exact ⟨namePart_of_spellsName name.spelled c listed, fun same => plain (same ▸ listed)⟩
  rw [← camelChars_marked parts, camelCase, snakeCase, String.toList_ofList, ← String.toList_inj,
    String.toList_ofList]

/-- A name that comes back is a keyword in snake case only if it is one itself. -/
theorem keyword_snakeCase {name : Name} (plain : '_' ∉ name.text.toList)
    (camel : CamelSpelled name.text.toList) :
    isKeyword (snakeCase name.text) = isKeyword name.text := by
  rw [Bool.eq_iff_iff]
  constructor
  · intro keyword
    have smooth : ∀ word ∈ keywords, '_' ∉ word.toList := by decide
    have unmarked : '_' ∉ (snakeCase name.text).toList :=
      smooth _ (by simpa [isKeyword] using keyword)
    -- Without an underscore nothing was set apart.
    have same : name.text = snakeCase name.text := by
      calc name.text
          = camelCase (snakeCase name.text) := ((camelCase_snakeCase plain).mpr camel).symm
        _ = snakeCase name.text := by
            rw [camelCase, camelChars_plain unmarked, String.ofList_toList]
    rw [same]
    exact keyword
  · have each : ∀ word ∈ keywords, CamelSpelled word.toList →
        isKeyword (snakeCase word) = true := by decide +kernel
    intro keyword
    exact each name.text (by simpa [isKeyword] using keyword) camel

theorem camelCase_attributeName_iff {name : Name} (plain : '_' ∉ name.text.toList) :
    camelCase (attributeName name.text) = name.text ↔
      CamelSpelled name.text.toList ∧ isKeyword name.text = false := by
  rw [attributeName, safeIdentifier]
  split
  · rename_i keyword
    have marked : camelCase (snakeCase name.text ++ "_") ≠ name.text := by
      intro same
      apply plain
      have ended : (snakeCase name.text ++ "_").toList = (snakeCase name.text).toList ++ ['_'] := by
        simp
      rw [← same, camelCase, String.toList_ofList, ended, camelChars_concat]
      simp
    simp only [marked, false_iff, not_and, Bool.not_eq_false]
    intro camel
    rw [← keyword_snakeCase plain camel, keyword]
  · rename_i free
    rw [camelCase_snakeCase plain, iff_self_and]
    intro camel
    rw [← keyword_snakeCase plain camel]
    simpa using free

/-- A name is served under itself without being given exactly if it has no underscore, no
capital that comes first or follows another one, and is not a keyword. -/
theorem needsExplicitName_eq_false_iff (name : Name) :
    (needsExplicitName name.text = false ↔
      '_' ∉ name.text.toList ∧ CamelSpelled name.text.toList ∧ isKeyword name.text = false) ∧
    ('_' ∉ name.text.toList →
      (camelCase (safeIdentifier (snakeCase name.text)) = name.text ↔
        CamelSpelled name.text.toList ∧ isKeyword name.text = false)) := by
  refine ⟨?_, camelCase_attributeName_iff⟩
  rw [needsExplicitName, Bool.or_eq_false_iff, bne_eq_false_iff_eq]
  simp only [hasUnderscore, List.contains_eq_mem, decide_eq_false_iff_not]
  exact and_congr_right camelCase_attributeName_iff

example : needsExplicitName "getHttpUrl2" = false ∧ needsExplicitName "getHTTPUrl" = true ∧
    needsExplicitName "async" = true := by
  decide +kernel

end Keywords

end SchemaClasses.Naming
