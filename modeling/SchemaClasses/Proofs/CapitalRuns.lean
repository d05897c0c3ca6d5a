import Mathlib.Data.List.Basic
import Mathlib.Data.List.TakeWhile
import SchemaClasses.Proofs.Names

/-!
Which capitals are set apart in snake case. The scan takes pairs of characters, but whether a
capital gets an underscore can be told from its place in its run of capitals: after a word
character it is the first, third, fifth of the run, elsewhere the second, fourth, sixth.
-/

namespace SchemaClasses.Naming

open Schema Text

section Runs

/-- Capitals that stand together, with no further one next to them. -/
structure CapitalRun (before run after : List Char) : Prop where
  capitals : ∀ c ∈ run, c.isUpper = true
  opens : before.getLast?.any Char.isUpper = false
  closes : after.head?.any Char.isUpper = false

/-- A capital is set apart by its number in its run, counted from zero. -/
def SetApart (name : List Char) (position : Nat) : Prop :=
  ∃ before run after, name = before ++ run ++ after ∧ CapitalRun before run after ∧
    ∃ number < run.length, position = before.length + number ∧
      number % 2 = if before.getLast?.any isNamePart then 0 else 1

/-- Whether a character is set apart after others, of which the last comes first here. -/
def isSetApart (previous : List Char) (c : Char) : Bool :=
  c.isUpper && (previous.takeWhile Char.isUpper).length % 2 ==
    if (previous.dropWhile Char.isUpper).head?.any isNamePart then 0 else 1

/-- Where a run reaches back to is found by going back over its capitals. -/
theorem isSetApart_reverse {before start : List Char} (capitals : ∀ c ∈ start, c.isUpper = true)
    (opens : before.getLast?.any Char.isUpper = false) (c : Char) :
    isSetApart (before ++ start).reverse c =
      (c.isUpper && start.length % 2 == if before.getLast?.any isNamePart then 0 else 1) := by
  have each : ∀ d ∈ start.reverse, d.isUpper = true := by simpa using capitals
  have final : before.getLast? = before.reverse.head? := by simp
  unfold isSetApart
  rw [List.reverse_append, List.takeWhile_append_of_pos each, List.dropWhile_append_of_pos each]
  cases shape : before.reverse with
  | nil => simp [final, shape]
  | cons last others =>
      have small : last.isUpper = false := by simpa [final, shape] using opens
      simp [final, shape, small]

theorem dropWhile_stops (text : List Char) :
    (text.dropWhile Char.isUpper).head?.any Char.isUpper = false := by
  have stops := List.head?_dropWhile_not Char.isUpper text
  cases shape : (text.dropWhile Char.isUpper).head? with
  | none => rfl
  | some c => simpa [shape] using stops

theorem exists_run_start (text : List Char) :
    ∃ before start, text = before ++ start ∧ (∀ c ∈ start, c.isUpper = true) ∧
      before.getLast?.any Char.isUpper = false := by
  refine ⟨(text.reverse.dropWhile Char.isUpper).reverse,
    (text.reverse.takeWhile Char.isUpper).reverse, ?_, ?_, ?_⟩
  · rw [← List.reverse_append, List.takeWhile_append_dropWhile, List.reverse_reverse]
  · intro c listed
    exact List.mem_takeWhile_imp (List.mem_reverse.mp listed)
  · rw [List.getLast?_reverse]
    exact dropWhile_stops text.reverse

theorem setApart_at (before : List Char) (c : Char) (rest : List Char) :
    SetApart (before ++ c :: rest) before.length ↔ isSetApart before.reverse c = true := by
  constructor
  · rintro ⟨outer, run, after, shape, maximal, number, inside, place, parity⟩
    have parted : outer ++ run ++ after =
        (outer ++ run.take number) ++ (run.drop number ++ after) := by
      rw [List.append_assoc outer, List.append_assoc outer, ← List.append_assoc (run.take number),
        List.take_append_drop]
    -- Before the position stand what comes before the run and the first capitals of the run.
    obtain ⟨rfl, ahead⟩ : before = outer ++ run.take number ∧
        c :: rest = run.drop number ++ after :=
      List.append_inj (shape.trans parted) (by simp [place, Nat.le_of_lt inside])
    have early : ∀ d ∈ run.take number, d.isUpper = true :=
      fun d listed => maximal.capitals d (List.mem_of_mem_take listed)
    have big : c.isUpper = true := by
      rw [List.drop_eq_getElem_cons inside, List.cons_append, List.cons.injEq] at ahead
      exact maximal.capitals c (ahead.1 ▸ List.getElem_mem inside)
    rw [isSetApart_reverse early maximal.opens, big]
    simpa [Nat.min_eq_left (Nat.le_of_lt inside)] using parity
  · intro apart
    obtain ⟨outer, start, rfl, capitals, opens⟩ := exists_run_start before
    rw [isSetApart_reverse capitals opens, Bool.and_eq_true, beq_iff_eq] at apart
    obtain ⟨big, parity⟩ := apart
    refine ⟨outer, start ++ c :: rest.takeWhile Char.isUpper, rest.dropWhile Char.isUpper, ?_,
      ⟨?_, opens, dropWhile_stops rest⟩, start.length, by simp, by simp, parity⟩
    · simp
    · intro d listed
      rcases List.mem_append.mp listed with early | late
      · exact capitals d early
      · rcases List.mem_cons.mp late with rfl | within
        · exact big
        · exact List.mem_takeWhile_imp within

theorem setApart_bounded {name : List Char} {position : Nat} (apart : SetApart name position) :
    position < name.length := by
  obtain ⟨before, run, after, rfl, _, number, inside, rfl, _⟩ := apart
  simp only [List.length_append]
  omega

theorem setApart_iff (name : List Char) (position : Nat) :
    (name.drop position).head?.any (isSetApart (name.take position).reverse) = true ↔
      SetApart name position := by
  by_cases inside : position < name.length
  · have shape : name = name.take position ++ name[position] :: name.drop (position + 1) := by
      rw [← List.drop_eq_getElem_cons inside, List.take_append_drop]
    have size : (name.take position).length = position := by
      rw [List.length_take, Nat.min_eq_left (Nat.le_of_lt inside)]
    have known := setApart_at (name.take position) name[position] (name.drop (position + 1))
    rw [← shape, size] at known
    rw [known, List.drop_eq_getElem_cons inside]
    rfl
  · rw [List.drop_eq_nil_of_le (Nat.le_of_not_lt inside)]
    constructor
    · intro found
      cases found
    · intro apart
      exact absurd (setApart_bounded apart) inside

instance (name : List Char) (position : Nat) : Decidable (SetApart name position) :=
  decidable_of_iff _ (setApart_iff name position)

end Runs

section Steps

/-! What is known of one character decides about the next. Inside of a run the rule changes with
every capital. -/

variable {name before rest : List Char} {c d : Char}

theorem not_setApart_small (whole : name = before ++ c :: rest) (small : c.isUpper = false) :
    ¬ SetApart name before.length := by
  rw [whole, setApart_at]
  simp [isSetApart, small]

theorem setApart_next (whole : name = before ++ c :: d :: rest) :
    SetApart name (before.length + 1) ↔ isSetApart (c :: before.reverse) d = true := by
  have known := setApart_at (before ++ [c]) d rest
  simpa [whole] using known

theorem setApart_after_capital (whole : name = before ++ c :: d :: rest)
    (previous : c.isUpper = true) (capital : d.isUpper = true) :
    SetApart name (before.length + 1) ↔ ¬ SetApart name before.length := by
  rw [setApart_next whole, whole, setApart_at]
  unfold isSetApart
  rw [List.takeWhile_cons_of_pos previous, List.dropWhile_cons_of_pos previous, List.length_cons,
    previous, capital, Bool.true_and, Bool.true_and, beq_iff_eq, beq_iff_eq]
  split
  · omega
  · omega

theorem setApart_after_other (whole : name = before ++ c :: d :: rest)
    (previous : c.isUpper = false) (capital : d.isUpper = true) :
    SetApart name (before.length + 1) ↔ isNamePart c = true := by
  have small : ¬ c.isUpper = true := by simp [previous]
  rw [setApart_next whole]
  unfold isSetApart
  rw [List.takeWhile_cons_of_neg small, List.dropWhile_cons_of_neg small, capital]
  cases part : isNamePart c <;> simp [part]

theorem not_setApart_after_pair (whole : name = before ++ c :: d :: rest)
    (capital : d.isUpper = true) (apart : SetApart name (before.length + 1)) :
    ¬ SetApart name (before.length + 2) := by
  cases rest with
  | nil =>
      intro beyond
      have inside := setApart_bounded beyond
      simp [whole] at inside
  | cons e rest =>
      by_cases big : e.isUpper = true
      · have moved : name = (before ++ [c]) ++ d :: e :: rest := by simp [whole]
        have turns := setApart_after_capital moved capital big
        rw [List.length_append] at turns
        exact fun again => turns.mp again apart
      · have moved : name = (before ++ [c, d]) ++ e :: rest := by simp [whole]
        simpa using not_setApart_small moved (by simpa using big)

theorem isNamePart_of_isUpper {c : Char} (capital : c.isUpper = true) : isNamePart c = true := by
  have letter : c.isAlpha = true := Bool.or_eq_true_iff.mpr (.inl capital)
  simp [isNamePart, Char.isAlphanum, letter]

theorem not_setApart_after_other (whole : name = before ++ c :: d :: rest)
    (apart : ¬ (isNamePart c = true ∧ d.isUpper = true)) :
    ¬ SetApart name (before.length + 1) := by
  by_cases big : d.isUpper = true
  · have other : ¬ isNamePart c = true := fun part => apart ⟨part, big⟩
    have small : c.isUpper = false := by simpa using mt isNamePart_of_isUpper other
    exact mt (setApart_after_other whole small big).mp other
  · have moved : name = (before ++ [c]) ++ d :: rest := by simp [whole]
    simpa using not_setApart_small moved (by simpa using big)

end Steps

section Scan

theorem isWord_ascii {c : Char} (ascii : c.toNat < 128) : isWord c = isNamePart c :=
  of_sevenBits (fun c => isWord c = isNamePart c) ascii (by decide +kernel)

theorem isCapital_ascii {c : Char} (ascii : c.toNat < 128) : isCapital c = c.isUpper :=
  of_sevenBits (fun c => isCapital c = c.isUpper) ascii (by decide +kernel)

theorem lower_ascii {c : Char} (ascii : c.toNat < 128) :
    lower c = c.toLower ∧ c.toLower.toNat < 128 ∧ c.toLower.isUpper = false ∧
      c.toLower.toLower = c.toLower :=
  of_sevenBits (fun c => lower c = c.toLower ∧ c.toLower.toNat < 128 ∧ c.toLower.isUpper = false ∧
    c.toLower.toLower = c.toLower) ascii (by decide +kernel)

theorem not_setApart_start (name : List Char) : ¬ SetApart name 0 := by
  cases name with
  | nil =>
      intro apart
      exact absurd (setApart_bounded apart) (by simp)
  | cons c rest =>
      have known := setApart_at [] c rest
      simpa [isSetApart] using known

/-- The scan stands free before a character that is not set apart. A pair that it takes ends in
one that is, so that it stands free again after it. -/
theorem markCapitals_apart {name before rest : List Char} (whole : name = before ++ rest)
    (ascii : ∀ c ∈ rest, c.toNat < 128) (free : ¬ SetApart name before.length) :
    markCapitals rest = (rest.zipIdx before.length).flatMap fun (c, position) =>
      if SetApart name position then ['_', c] else [c] := by
  fun_induction markCapitals rest generalizing before with
  | case1 c capital rest pair ih =>
      have sevenBits := ascii c (by simp)
      rw [isWord_ascii sevenBits, isCapital_ascii (ascii capital (by simp)),
        Bool.and_eq_true] at pair
      have apart : SetApart name (before.length + 1) := by
        by_cases big : c.isUpper = true
        · exact (setApart_after_capital whole big pair.2).mpr free
        · exact (setApart_after_other whole (by simpa using big) pair.2).mpr pair.1
      have next : ¬ SetApart name (before ++ [c, capital]).length := by
        simpa using not_setApart_after_pair whole pair.2 apart
      have moved : name = (before ++ [c, capital]) ++ rest := by simp [whole]
      have later := ih moved (fun d listed => ascii d (by simp [listed])) next
      simp [List.zipIdx_cons, free, apart, later]
  | case2 c d rest plain ih =>
      have sevenBits := ascii c (by simp)
      rw [isWord_ascii sevenBits, isCapital_ascii (ascii d (by simp))] at plain
      have next : ¬ SetApart name (before ++ [c]).length := by
        simpa using not_setApart_after_other whole (by simpa using plain)
      have moved : name = (before ++ [c]) ++ d :: rest := by simp [whole]
      have later := ih moved (fun e listed => ascii e (List.mem_cons_of_mem c listed)) next
      simpa [List.zipIdx_cons, free] using later
  | case3 short brief =>
      rcases short with _ | ⟨c, _ | ⟨d, rest⟩⟩
      · rfl
      · simp [free]
      · exact absurd rfl (brief c d rest)

end Scan

section SnakeCase

/-- The lower-cased name, with an underscore before every capital that is set apart. -/
theorem snakeCase_chars {name : String} (ascii : ∀ c ∈ name.toList, c.toNat < 128) :
    (snakeCase name).toList = name.toList.zipIdx.flatMap fun (c, position) =>
      if SetApart name.toList position then ['_', c.toLower] else [c.toLower] := by
  have scanned := markCapitals_apart (List.nil_append name.toList).symm ascii
    (not_setApart_start name.toList)
  rw [snakeCase, String.toList_ofList, scanned, List.map_flatMap]
  apply List.flatMap_congr
  rintro ⟨c, position⟩ listed
  have low := (lower_ascii (ascii c (List.fst_mem_of_mem_zipIdx listed))).1
  have mark : lower '_' = '_' := by decide
  by_cases apart : SetApart name.toList position
  · simp [apart, low, mark]
  · simp [apart, low]

theorem snakeCase_small {name : String} (ascii : ∀ c ∈ name.toList, c.toNat < 128) :
    ∀ c ∈ (snakeCase name).toList, c.toNat < 128 ∧ c.isUpper = false ∧ c.toLower = c := by
  intro c listed
  rw [snakeCase, String.toList_ofList] at listed
  obtain ⟨original, inside, rfl⟩ := List.mem_map.mp listed
  rcases mem_markCapitals inside with known | rfl
  · obtain ⟨low, small⟩ := lower_ascii (ascii original known)
    rwa [low]
  · decide

theorem not_setApart_of_small {name : List Char} (small : ∀ c ∈ name, c.isUpper = false)
    (position : Nat) : ¬ SetApart name position := by
  rintro ⟨before, run, after, rfl, maximal, number, inside, _⟩
  have listed : run[number] ∈ run := List.getElem_mem inside
  have big := maximal.capitals _ listed
  rw [small _ (by simp [listed])] at big
  cases big

theorem snakeCase_idempotent {name : String} (ascii : ∀ c ∈ name.toList, c.toNat < 128) :
    snakeCase (snakeCase name) = snakeCase name := by
  have small := snakeCase_small ascii
  rw [← String.toList_inj, snakeCase_chars fun c listed => (small c listed).1]
  calc (snakeCase name).toList.zipIdx.flatMap (fun (c, position) =>
        if SetApart (snakeCase name).toList position then ['_', c.toLower] else [c.toLower])
      = (snakeCase name).toList.zipIdx.flatMap (fun place => [place.1]) := by
        apply List.flatMap_congr
        rintro ⟨c, position⟩ listed
        have plain := not_setApart_of_small (fun d inside => (small d inside).2.1) position
        simp only [plain, if_false, (small c (List.fst_mem_of_mem_zipIdx listed)).2.2]
    _ = (snakeCase name).toList := by
        rw [← List.map_eq_flatMap, List.zipIdx_map_fst]

/-- Snake case sets capitals apart by their places alone and lower-cases, and does no more. So it
changes nothing a second time, and a schema name becomes a lower-case identifier. -/
theorem snakeCase_sets_apart (name : String) (ascii : ∀ c ∈ name.toList, c.toNat < 128) :
    ((snakeCase name).toList = name.toList.zipIdx.flatMap fun (c, position) =>
      if SetApart name.toList position then ['_', c.toLower] else [c.toLower]) ∧
    snakeCase (snakeCase name) = snakeCase name ∧
    (spellsName name.toList = true →
      spellsName (safeIdentifier (snakeCase name)).toList = true ∧
      (∀ c ∈ (safeIdentifier (snakeCase name)).toList, c.toNat < 128 ∧ c.isUpper = false) ∧
      isKeyword (safeIdentifier (snakeCase name)) = false) := by
  refine ⟨snakeCase_chars ascii, snakeCase_idempotent ascii, fun spelled => ?_⟩
  have identifier := safeIdentifier_spelled (snakeCase_spelled spelled)
  refine ⟨identifier, fun c listed => ⟨?_, ?_⟩, safeIdentifier_free (snakeCase name)⟩
  · exact isNamePart_ascii (namePart_of_spellsName identifier c listed)
  · exact attributeName_small spelled c listed

/-- A run after a word character, one after an underscore, and one after neither. -/
theorem sets_apart_getHTTPUrl :
    snakeCase "getHTTPUrl_XYZ" = "get_ht_tp_url__xy_z" ∧ snakeCase "XYZ-AB" = "x_yz-a_b" ∧
    ((snakeCase "XYZ-AB").toList = "XYZ-AB".toList.zipIdx.flatMap fun (c, position) =>
      if SetApart "XYZ-AB".toList position then ['_', c.toLower] else [c.toLower]) ∧
    snakeCase (snakeCase "getHTTPUrl_XYZ") = snakeCase "getHTTPUrl_XYZ" ∧
    spellsName "getHTTPUrl_XYZ".toList = true ∧
    isKeyword (safeIdentifier (snakeCase "getHTTPUrl_XYZ")) = false := by
  have spelled : spellsName "getHTTPUrl_XYZ".toList = true := by decide
  obtain ⟨_, twice, identifier⟩ := snakeCase_sets_apart "getHTTPUrl_XYZ" (by simp)
  exact ⟨by decide +kernel, by decide +kernel, (snakeCase_sets_apart "XYZ-AB" (by simp)).1, twice,
    spelled, (identifier spelled).2.2⟩

end SnakeCase

end SchemaClasses.Naming
