import SchemaClasses.Literal
import SchemaClasses.Text.Lines

/-!
Unified line ends. Text without carriage returns is not changed, and the line ends of a
docstring may be unified before or after it is escaped.
-/

namespace SchemaClasses.Text

theorem unifyNewlines_other {c : Char} (other : c ≠ '\r') (rest : List Char) :
    unifyNewlines (c :: rest) = c :: unifyNewlines rest := by
  rw [unifyNewlines.eq_4]
  · intro tail same
    exact absurd same other
  · intro same
    exact absurd same other

theorem unifyNewlines_append {first : List Char} (quiet : '\r' ∉ first) (second : List Char) :
    unifyNewlines (first ++ second) = first ++ unifyNewlines second := by
  induction first with
  | nil => rfl
  | cons c rest ih =>
      rw [List.mem_cons, not_or] at quiet
      rw [List.cons_append, unifyNewlines_other (Ne.symm quiet.1), ih quiet.2, List.cons_append]

theorem unifyNewlines_return {rest : List Char} (noFeed : rest.head? ≠ some '\n') :
    unifyNewlines ('\r' :: rest) = '\n' :: unifyNewlines rest := by
  rw [unifyNewlines.eq_3]
  intro tail same
  rw [same] at noFeed
  exact noFeed rfl

/-- Only a line feed is joined to a carriage return before it. -/
theorem unifyNewlines_parted (first : List Char) {c : Char} (noFeed : c ≠ '\n')
    (second : List Char) :
    unifyNewlines (first ++ c :: second) = unifyNewlines first ++ unifyNewlines (c :: second) := by
  induction first using unifyNewlines.induct with
  | case1 => rfl
  | case2 rest ih => simp [unifyNewlines, ih]
  | case3 rest noPair ih =>
      have apart : rest.head? ≠ some '\n' := by
        intro same
        obtain ⟨tail, rfl⟩ := List.head?_eq_some_iff.mp same
        exact noPair tail rfl
      have stays : (rest ++ c :: second).head? ≠ some '\n' := by
        cases rest with
        | nil => simpa using noFeed
        | cons d tail => simpa using apart
      rw [List.cons_append, unifyNewlines_return stays, unifyNewlines_return apart, ih,
        List.cons_append]
  | case4 d rest noPair noReturn ih =>
      have other : d ≠ '\r' := fun same => noReturn same
      rw [List.cons_append, unifyNewlines_other other, unifyNewlines_other other, ih,
        List.cons_append]

/-- A first character other than a line feed was there before. -/
theorem unifyNewlines_head {text rest : List Char} {c : Char} (noFeed : c ≠ '\n')
    (unified : unifyNewlines text = c :: rest) :
    ∃ tail, text = c :: tail ∧ unifyNewlines tail = rest := by
  induction text using unifyNewlines.induct with
  | case1 => simp [unifyNewlines] at unified
  | case2 tail ih =>
      simp only [unifyNewlines, List.cons.injEq] at unified
      exact absurd unified.1.symm noFeed
  | case3 tail noPair ih =>
      rw [unifyNewlines.eq_3 tail noPair] at unified
      simp only [List.cons.injEq] at unified
      exact absurd unified.1.symm noFeed
  | case4 d tail noPair noReturn ih =>
      rw [unifyNewlines_other (fun same => noReturn same)] at unified
      simp only [List.cons.injEq] at unified
      exact ⟨tail, by rw [unified.1], unified.2⟩

theorem unifyNewlines_getLast (text : List Char) :
    (unifyNewlines text).getLast? = text.getLast?.map fun c => if c = '\r' then '\n' else c := by
  induction text using unifyNewlines.induct with
  | case1 => rfl
  | case2 rest ih =>
      simp only [unifyNewlines, List.getLast?_cons, ih]
      cases rest.getLast? <;> simp
  | case3 rest noPair ih =>
      rw [unifyNewlines.eq_3 rest noPair]
      simp only [List.getLast?_cons, ih]
      cases rest.getLast? <;> simp
  | case4 d rest noPair noReturn ih =>
      have other : d ≠ '\r' := fun same => noReturn same
      rw [unifyNewlines_other other]
      simp only [List.getLast?_cons, ih]
      cases rest.getLast? <;> simp [other]

theorem unifyNewlines_eq_nil {text : List Char} : unifyNewlines text = [] ↔ text = [] := by
  have last := unifyNewlines_getLast text
  constructor
  · intro empty
    rw [empty] at last
    cases text with
    | nil => rfl
    | cons c rest => simp [List.getLast?_cons] at last
  · rintro rfl
    rfl

section Pieces

/-! Pieces of a text that hold no line end are the same in the unified text. -/

theorem unifyNewlines_return_cons (rest : List Char) :
    ∃ tail, unifyNewlines ('\r' :: rest) = '\n' :: tail := by
  by_cases feed : rest.head? = some '\n'
  · obtain ⟨tail, rfl⟩ := List.head?_eq_some_iff.mp feed
    exact ⟨unifyNewlines tail, rfl⟩
  · exact ⟨unifyNewlines rest, unifyNewlines_return feed⟩

theorem unifyNewlines_cut {text : List Char} {size : Nat} (quiet : '\r' ∉ text.take size) :
    unifyNewlines text = text.take size ++ unifyNewlines (text.drop size) := by
  rw [← unifyNewlines_append quiet, List.take_append_drop]

theorem unifyNewlines_take {text : List Char} {size : Nat} (quiet : '\r' ∉ text.take size) :
    (unifyNewlines text).take size = text.take size := by
  rw [unifyNewlines_cut quiet]
  rcases Nat.le_total size text.length with short | long
  · rw [List.take_append_of_le_length (by simp [short]), List.take_take, Nat.min_self]
  · rw [List.drop_eq_nil_of_le long, unifyNewlines, List.append_nil, List.take_take, Nat.min_self]

theorem unifyNewlines_drop {text : List Char} {size : Nat} (quiet : '\r' ∉ text.take size) :
    (unifyNewlines text).drop size = unifyNewlines (text.drop size) := by
  rw [unifyNewlines_cut quiet]
  rcases Nat.le_total size text.length with short | long
  · rw [List.drop_append_of_le_length (by simp [short]), List.drop_take_self, List.nil_append]
  · rw [List.drop_eq_nil_of_le long, unifyNewlines, List.append_nil, List.drop_take_self]

theorem quiet_takeWhile {holds : Char → Bool} (noReturn : holds '\r' = false)
    (text : List Char) : '\r' ∉ text.take (text.takeWhile holds).length := by
  have started : text.takeWhile holds <+: text := List.takeWhile_prefix holds
  rw [← List.prefix_iff_eq_take.mp started]
  intro listed
  have held := List.all_eq_true.mp List.all_takeWhile _ listed
  rw [noReturn] at held
  cases held

theorem unifyNewlines_takeWhile {holds : Char → Bool} (noReturn : holds '\r' = false)
    (noFeed : holds '\n' = false) (text : List Char) :
    (unifyNewlines text).takeWhile holds = text.takeWhile holds := by
  induction text with
  | nil => rfl
  | cons c rest ih =>
      by_cases isReturn : c = '\r'
      · obtain ⟨tail, unified⟩ := unifyNewlines_return_cons rest
        rw [isReturn, unified, List.takeWhile_cons_of_neg (by simp [noFeed]),
          List.takeWhile_cons_of_neg (by simp [noReturn])]
      · rw [unifyNewlines_other isReturn, List.takeWhile_cons, List.takeWhile_cons, ih]

/-- No character but a line feed is made by unifying, and none but a carriage return goes. -/
theorem unifyNewlines_startsWith {word : List Char} (plain : ∀ c ∈ word, c ≠ '\r' ∧ c ≠ '\n')
    (text : List Char) : word <+: unifyNewlines text ↔ word <+: text := by
  induction word generalizing text with
  | nil => simp
  | cons c word ih =>
      have others := ih fun d listed => plain d (List.mem_cons_of_mem c listed)
      have ⟨noReturn, noFeed⟩ := plain c List.mem_cons_self
      constructor
      · rintro ⟨rest, same⟩
        obtain ⟨tail, rfl, unified⟩ := unifyNewlines_head noFeed same.symm
        rw [List.cons_prefix_cons]
        exact ⟨rfl, (others tail).mp ⟨rest, unified.symm⟩⟩
      · rintro ⟨rest, rfl⟩
        rw [List.cons_append, unifyNewlines_other noReturn, List.cons_prefix_cons]
        exact ⟨rfl, (others _).mpr ⟨rest, rfl⟩⟩

theorem unifyNewlines_take_eq {word : List Char} (plain : ∀ c ∈ word, c ≠ '\r' ∧ c ≠ '\n')
    (text : List Char) :
    (unifyNewlines text).take word.length = word ↔ text.take word.length = word := by
  have started := unifyNewlines_startsWith plain text
  rw [List.prefix_iff_eq_take, List.prefix_iff_eq_take] at started
  rw [eq_comm, started, eq_comm]

theorem unifyNewlines_head? {c : Char} (noReturn : c ≠ '\r') (noFeed : c ≠ '\n')
    (text : List Char) : (unifyNewlines text).head? = some c ↔ text.head? = some c := by
  constructor
  · intro starts
    obtain ⟨rest, same⟩ := List.head?_eq_some_iff.mp starts
    obtain ⟨tail, rfl, _⟩ := unifyNewlines_head noFeed same
    rfl
  · intro starts
    obtain ⟨rest, rfl⟩ := List.head?_eq_some_iff.mp starts
    rw [unifyNewlines_other noReturn]
    rfl

theorem unifyNewlines_starts (text : List Char) {c : Char} (noReturn : c ≠ '\r')
    (noFeed : c ≠ '\n') :
    (∃ rest, text = c :: rest ∧ unifyNewlines text = c :: unifyNewlines rest) ∨
      text.head? ≠ some c ∧ (unifyNewlines text).head? ≠ some c := by
  by_cases starts : text.head? = some c
  · obtain ⟨rest, rfl⟩ := List.head?_eq_some_iff.mp starts
    exact .inl ⟨rest, rfl, unifyNewlines_other noReturn rest⟩
  · exact .inr ⟨starts, mt (unifyNewlines_head? noReturn noFeed text).mp starts⟩

theorem unifyNewlines_all {holds : Char → Bool} (onReturn : holds '\r' = true)
    (onFeed : holds '\n' = true) (text : List Char) :
    (unifyNewlines text).all holds = text.all holds := by
  induction text using unifyNewlines.induct with
  | case1 => rfl
  | case2 rest ih => simp [unifyNewlines, onReturn, onFeed, ih]
  | case3 rest noPair ih => simp [unifyNewlines.eq_3 rest noPair, onReturn, onFeed, ih]
  | case4 c rest noPair noReturn ih => simp [unifyNewlines_other noReturn, ih]

end Pieces

section Docstrings

open Literal

theorem escapeDocstring_head {text : List Char} {c : Char} (plain : c ≠ '\\') :
    (escapeDocstring text).head? = some c → text.head? = some c := by
  induction text using escapeDocstring.induct with
  | case1 => simp [escapeDocstring]
  | case2 rest => simp [escapeDocstring, Ne.symm plain]
  | case3 rest => simp [escapeDocstring, Ne.symm plain]
  | case4 d rest noTriple noSlash => simp [escapeDocstring.eq_4 d rest noTriple noSlash]

/-- Escaping touches neither line ends nor what stands next to them. -/
theorem escapeDocstring_unify (text : List Char) :
    unifyNewlines (escapeDocstring text) = escapeDocstring (unifyNewlines text) := by
  induction text using escapeDocstring.induct with
  | case1 => rfl
  | case2 rest ih => simp [escapeDocstring, unifyNewlines_other, ih]
  | case3 rest ih => simp [escapeDocstring, unifyNewlines_other, ih]
  | case4 c rest noTriple noSlash ih =>
      rw [escapeDocstring.eq_4 c rest noTriple noSlash]
      by_cases isReturn : c = '\r'
      · subst isReturn
        by_cases feed : rest.head? = some '\n'
        · obtain ⟨tail, rfl⟩ := List.head?_eq_some_iff.mp feed
          have kept : ∀ following, escapeDocstring ('\n' :: following) =
              '\n' :: escapeDocstring following := by
            intro following
            rw [escapeDocstring.eq_4] <;> simp
          rw [kept, unifyNewlines_other (by decide)] at ih
          rw [unifyNewlines_other (by decide), kept] at ih
          rw [kept, unifyNewlines, unifyNewlines, kept]
          exact ih
        · have noFeed : (escapeDocstring rest).head? ≠ some '\n' := fun same =>
            feed (escapeDocstring_head (by decide) same)
          rw [unifyNewlines_return noFeed, unifyNewlines_return feed, ih, escapeDocstring.eq_4]
          · simp
          · simp
      · rw [unifyNewlines_other isReturn, unifyNewlines_other isReturn, ih, escapeDocstring.eq_4]
        · intro tail same triple
          obtain ⟨second, shape, unified⟩ := unifyNewlines_head (by decide) triple
          obtain ⟨third, shape', _⟩ := unifyNewlines_head (by decide) unified
          -- Quotes are not made by unifying, so the three stood in the text before.
          exact noTriple third same (by rw [shape, shape'])
        · exact noSlash

theorem padQuote_unify (text : List Char) :
    unifyNewlines (padQuote text) = padQuote (unifyNewlines text) := by
  have last : (unifyNewlines text).getLast? = some '\x27' ↔ text.getLast? = some '\x27' := by
    rw [unifyNewlines_getLast]
    cases text.getLast? with
    | none => simp
    | some c =>
        by_cases isReturn : c = '\r'
        · simp [isReturn]
        · simp [isReturn]
  unfold padQuote
  by_cases quoted : text.getLast? = some '\x27'
  · rw [if_pos quoted, if_pos (last.mpr quoted), unifyNewlines_parted _ (by decide)]
    rfl
  · rw [if_neg quoted, if_neg (fun same => quoted (last.mp same))]

end Docstrings

end SchemaClasses.Text
