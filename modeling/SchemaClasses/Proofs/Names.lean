import SchemaClasses.Naming.Reserved
import SchemaClasses.Schema.Name

/-!
Names and the attribute names made from them. A schema name in snake case is spelled like
a name again, and no keyword is left after escaping. Three schema names become `__debug__`.
-/

namespace SchemaClasses.Naming

open Schema Text

section Characters

theorem isNamePart_of_isNameStart {c : Char} (start : isNameStart c = true) :
    isNamePart c = true := by
  simp only [isNameStart, isNamePart, Char.isAlphanum, Bool.or_eq_true] at start ⊢
  exact start.imp_left Or.inl

theorem namePart_of_spellsName {name : List Char} (spelled : spellsName name = true) :
    ∀ c ∈ name, isNamePart c = true := by
  cases name with
  | nil => simp
  | cons first rest =>
      simp only [spellsName, Bool.and_eq_true, List.all_eq_true] at spelled
      intro c member
      rcases List.mem_cons.mp member with rfl | later
      · exact isNamePart_of_isNameStart spelled.1
      · exact spelled.2 c later

/-- A name with other parts after the same first character. -/
theorem spellsName_cons {first : Char} {others : List Char} (start : isNameStart first = true)
    (parts : ∀ c ∈ others, isNamePart c = true) : spellsName (first :: others) = true := by
  simpa [spellsName, start] using parts

theorem alpha_range {c : Char} (alpha : c.isAlpha = true) :
    (65 ≤ c.toNat ∧ c.toNat ≤ 90) ∨ (97 ≤ c.toNat ∧ c.toNat ≤ 122) := by
  have either : c.isUpper = true ∨ c.isLower = true := (Bool.or_eq_true _ _).mp alpha
  rcases either with upper | lower
  · have bounds : c.val ≥ 65 ∧ c.val ≤ 90 := of_decide_eq_true upper
    exact .inl bounds
  · have bounds : (decide (c.val ≥ 97) && decide (c.val ≤ 122)) = true := lower
    rw [Bool.and_eq_true, decide_eq_true_eq, decide_eq_true_eq] at bounds
    exact .inr bounds

theorem isNamePart_ascii {c : Char} (part : isNamePart c = true) : c.toNat < 128 := by
  simp only [isNamePart, Char.isAlphanum, Bool.or_eq_true, decide_eq_true_eq] at part
  rcases part with (alpha | digit) | rfl
  · have letters := alpha_range alpha
    omega
  · have digits : 48 ≤ c.toNat ∧ c.toNat ≤ 57 := by
      simpa [Char.isDigit, UInt32.le_iff_toNat_le] using digit
    omega
  · decide

/-- Letters that are written as the given one in lower case. -/
def unlower (c : Char) : List Char :=
  if c.isLower then [c, Char.ofNat (c.toNat - 32)] else [c]

/-- Listed characters are checked one by one, not as members of the type of all. -/
theorem of_listed (holds : Char → Prop) [DecidablePred holds] {chars : List Char}
    (all : (chars.all fun c => decide (holds c)) = true) : ∀ c ∈ chars, holds c :=
  fun c member => of_decide_eq_true (List.all_eq_true.mp all c member)

/-- The text as a name, where it is spelled like one. -/
def named (text : String) : Name :=
  if spelled : spellsName text.toList = true then ⟨text, spelled⟩ else ⟨"_", by decide⟩

theorem of_sevenBits (holds : Char → Prop) {c : Char} (ascii : c.toNat < 128)
    (each : ∀ point < 128, holds (Char.ofNat point)) : holds c := by
  have known := each c.toNat ascii
  rwa [Char.ofNat_toNat] at known

/-- What can be seen of all characters of names is checked one by one. -/
theorem of_ascii (holds : Char → Prop) {c : Char} (part : isNamePart c = true)
    (each : ∀ point < 128, isNamePart (Char.ofNat point) = true → holds (Char.ofNat point)) :
    holds c := by
  have known := each c.toNat (isNamePart_ascii part)
  rw [Char.ofNat_toNat] at known
  exact known part

theorem lower_part {c : Char} (part : isNamePart c = true) : isNamePart (lower c) = true :=
  of_ascii (fun c => isNamePart (lower c) = true) part (by decide +kernel)

theorem lower_start {c : Char} (start : isNameStart c = true) : isNameStart (lower c) = true := by
  exact of_ascii (fun c => isNameStart c = true → isNameStart (lower c) = true)
    (isNamePart_of_isNameStart start) (by decide +kernel) start

theorem mem_unlower {c : Char} (part : isNamePart c = true) : c ∈ unlower (lower c) :=
  of_ascii (fun c => c ∈ unlower (lower c)) part (by decide +kernel)

end Characters

section SnakeCase

theorem mem_markCapitals {c : Char} {name : List Char} (member : c ∈ markCapitals name) :
    c ∈ name ∨ c = '_' := by
  fun_induction markCapitals name with
  | case1 before capital rest marked ih =>
      simp only [List.mem_cons] at member ⊢
      rcases member with rfl | rfl | rfl | later
      · exact .inl (.inl rfl)
      · exact .inr rfl
      · exact .inl (.inr (.inl rfl))
      · exact (ih later).imp_left fun inside => .inr (.inr inside)
  | case2 before capital rest plain ih =>
      rcases List.mem_cons.mp member with rfl | later
      · exact .inl (by simp)
      · exact (ih later).imp_left fun inside => by simp [inside]
  | case3 short _ => exact .inl member

theorem markCapitals_head (first : Char) (rest : List Char) :
    ∃ others, markCapitals (first :: rest) = first :: others := by
  cases rest with
  | nil => exact ⟨[], rfl⟩
  | cons second rest =>
      unfold markCapitals
      split
      · exact ⟨_, rfl⟩
      · exact ⟨_, rfl⟩

theorem snakeCase_spelled {name : String} (spelled : spellsName name.toList = true) :
    spellsName (snakeCase name).toList = true := by
  have parts := namePart_of_spellsName spelled
  cases shape : name.toList with
  | nil => simp [shape, spellsName] at spelled
  | cons first rest =>
      obtain ⟨others, marked⟩ := markCapitals_head first rest
      rw [shape] at parts spelled
      simp only [spellsName, Bool.and_eq_true] at spelled
      simp only [snakeCase, String.toList_ofList, shape, marked, List.map_cons]
      apply spellsName_cons (lower_start spelled.1)
      intro c member
      obtain ⟨original, inside, rfl⟩ := List.mem_map.mp member
      apply lower_part
      rcases mem_markCapitals (marked ▸ List.mem_cons_of_mem first inside) with known | rfl
      · exact parts original known
      · decide

end SnakeCase

section Escaping

theorem safeIdentifier_spelled {name : String} (spelled : spellsName name.toList = true) :
    spellsName (safeIdentifier name).toList = true := by
  unfold safeIdentifier
  split
  · cases shape : name.toList with
    | nil => simp [shape, spellsName] at spelled
    | cons first rest =>
        have parts := namePart_of_spellsName spelled
        rw [shape] at spelled parts
        simp only [spellsName, Bool.and_eq_true] at spelled
        rw [String.toList_append, shape, List.cons_append]
        apply spellsName_cons spelled.1
        intro c member
        rcases List.mem_append.mp member with inside | last
        · exact parts c (by simp [inside])
        · have low : c = '_' := by simpa using last
          rw [low]
          decide
  · exact spelled

theorem safeIdentifier_free (name : String) : isKeyword (safeIdentifier name) = false := by
  unfold safeIdentifier
  split
  · -- No keyword ends in an underscore.
    have ends : ∀ keyword ∈ keywords, keyword.toList.getLast? ≠ some '_' := by decide
    cases escaped : isKeyword (name ++ "_") with
    | false => rfl
    | true =>
        have last := ends (name ++ "_") (by simpa [isKeyword] using escaped)
        simp at last
  · rename_i free
    simpa using free

end Escaping

section Small

theorem lower_small {c : Char} (part : isNamePart c = true) : (lower c).isUpper = false :=
  of_ascii (fun c => (lower c).isUpper = false) part (by decide +kernel)

/-- Attributes of fields have no capitals. -/
theorem attributeName_small {name : String} (spelled : spellsName name.toList = true) :
    ∀ c ∈ (attributeName name).toList, c.isUpper = false := by
  have snake : ∀ c ∈ (snakeCase name).toList, c.isUpper = false := by
    intro c member
    simp only [snakeCase, String.toList_ofList, List.mem_map] at member
    obtain ⟨original, inside, rfl⟩ := member
    rcases mem_markCapitals inside with known | rfl
    · exact lower_small (namePart_of_spellsName spelled original known)
    · decide
  unfold attributeName safeIdentifier
  split
  · intro c member
    rw [String.toList_append, List.mem_append] at member
    rcases member with inside | last
    · exact snake c inside
    · exact of_listed (fun c => c.isUpper = false) (by decide) c last
  · exact snake

end Small

section Served

/-- A name that is not given explicitly comes back from its attribute. -/
theorem camelCase_attributeName {name : String} (implicit : needsExplicitName name = false) :
    camelCase (attributeName name) = name := by
  simp only [needsExplicitName, Bool.or_eq_false_iff, bne_eq_false_iff_eq] at implicit
  exact implicit.2

end Served

section Debug

/-- Names that may come out as the given snake-case text. -/
def unmarked : List Char → List (List Char)
  | [] => [[]]
  | c :: rest =>
      (unmarked rest).flatMap (fun tail => (unlower c).map (· :: tail)) ++
        match rest with
        | '_' :: capital :: more =>
            (unmarked more).flatMap fun tail => (unlower c).flatMap fun first =>
              (unlower capital).map fun second => first :: second :: tail
        | _ => []

theorem unmarked_plain {first c : Char} {tail rest : List Char} (head : first ∈ unlower c)
    (others : tail ∈ unmarked rest) : first :: tail ∈ unmarked (c :: rest) := by
  rw [unmarked.eq_def]
  exact List.mem_append_left _
    (List.mem_flatMap.mpr ⟨tail, others, List.mem_map.mpr ⟨first, head, rfl⟩⟩)

theorem unmarked_marked {first second c capital : Char} {tail rest : List Char}
    (head : first ∈ unlower c) (next : second ∈ unlower capital) (others : tail ∈ unmarked rest) :
    first :: second :: tail ∈ unmarked (c :: '_' :: capital :: rest) := by
  rw [unmarked]
  apply List.mem_append_right
  simp only [List.mem_flatMap, List.mem_map]
  exact ⟨tail, others, first, head, second, next, rfl⟩

theorem mem_unmarked {name : List Char} (parts : ∀ c ∈ name, isNamePart c = true) :
    name ∈ unmarked ((markCapitals name).map lower) := by
  fun_induction markCapitals name with
  | case1 before capital rest marked ih =>
      have tail := ih fun c member => parts c (by simp [member])
      have low : lower '_' = '_' := by decide
      rw [List.map_cons, List.map_cons, List.map_cons, low]
      exact unmarked_marked (mem_unlower (parts before (by simp)))
        (mem_unlower (parts capital (by simp))) tail
  | case2 before capital rest plain ih =>
      have tail := ih fun c member => parts c (by simp [member])
      exact unmarked_plain (mem_unlower (parts before (by simp))) tail
  | case3 short brief =>
      match short with
      | [] => decide
      | [c] => exact unmarked_plain (mem_unlower (parts c (by simp))) (by decide)
      | before :: capital :: rest => exact absurd rfl (brief before capital rest)

/-- The names that are `__debug__` in snake case. -/
def debugSpellings : List String := ["__debug__", "_Debug__", "_DEbug__"]

theorem safeIdentifier_debug {name : String} :
    safeIdentifier name = "__debug__" ↔ name = "__debug__" := by
  constructor
  · intro same
    unfold safeIdentifier at same
    split at same
    · have chars := congrArg String.toList same
      have keyword : name = "__debug_" := by
        rw [← String.toList_inj]
        simpa using congrArg List.dropLast chars
      rename_i reserved
      rw [keyword] at reserved
      exact absurd reserved (by decide)
    · exact same
  · rintro rfl
    decide

theorem attributeName_debug {name : String} (spelled : spellsName name.toList = true) :
    attributeName name = "__debug__" ↔ name ∈ debugSpellings := by
  constructor
  · intro same
    have snake := safeIdentifier_debug.mp same
    have marks : (markCapitals name.toList).map lower = "__debug__".toList := by
      simpa [snakeCase] using congrArg String.toList snake
    -- Finitely many names can come out as this text, and they are tried one by one.
    have candidate := mem_unmarked (namePart_of_spellsName spelled)
    rw [marks] at candidate
    have candidates : ∀ chars ∈ unmarked "__debug__".toList,
        (markCapitals chars).map lower = "__debug__".toList →
          chars ∈ debugSpellings.map String.toList := by
      decide +kernel
    obtain ⟨known, listed, chars⟩ := List.mem_map.mp (candidates _ candidate marks)
    rw [String.toList_inj] at chars
    exact chars ▸ listed
  · have each : ∀ known ∈ debugSpellings, attributeName known = "__debug__" := by decide +kernel
    exact each name

end Debug

end SchemaClasses.Naming
