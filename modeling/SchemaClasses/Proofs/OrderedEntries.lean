import Mathlib.Data.List.Induction
import SchemaClasses.Entries

/-!
Entries that are put one after another. However often a key is put, it stands once, at the place
where it came first and with the value that came last.
-/

namespace SchemaClasses.Entries

variable {Value : Type}

section Put

theorem put_map {Other : Type} (f : Value → Other) (entries : Entries Value) (key : String)
    (value : Value) :
    (entries.put key value).map (fun entry => (entry.1, f entry.2)) =
      put (entries.map fun entry => (entry.1, f entry.2)) key (f value) := by
  induction entries with
  | nil => rfl
  | cons entry rest ih =>
      by_cases same : entry.1 = key
      · simp [put, same]
      · simp [put, same, ih]

theorem put_fresh (entries : Entries Value) (key : String) (value : Value)
    (absent : key ∉ entries.map Prod.fst) :
    entries.put key value = entries ++ [(key, value)] := by
  induction entries with
  | nil => rfl
  | cons first rest ih =>
      simp only [List.map_cons, List.mem_cons, not_or] at absent
      simp [put, Ne.symm absent.1, ih absent.2]

theorem keys_put_known {entries : Entries Value} {key : String}
    (known : key ∈ entries.map Prod.fst) (value : Value) :
    (entries.put key value).map Prod.fst = entries.map Prod.fst := by
  induction entries with
  | nil => cases known
  | cons entry rest ih =>
      by_cases same : entry.1 = key
      · simp [put, same]
      · have later : key ∈ rest.map Prod.fst := by
          simpa [Ne.symm same] using known
        simp [put, same, ih later]

theorem mem_put {entries : Entries Value} {key : String} {value : Value} {entry : String × Value}
    (distinct : (entries.map Prod.fst).Nodup) (listed : entry ∈ entries.put key value) :
    entry = (key, value) ∨ entry ∈ entries ∧ entry.1 ≠ key := by
  induction entries with
  | nil => exact .inl (by simpa [put] using listed)
  | cons first rest ih =>
      simp only [List.map_cons, List.nodup_cons] at distinct
      by_cases same : first.1 = key
      · simp only [put, same, if_true, List.mem_cons] at listed
        rcases listed with rfl | later
        · exact .inl rfl
        · -- The key stands in the first entry, so no later one has it.
          refine .inr ⟨by simp [later], ?_⟩
          intro again
          exact distinct.1 (same ▸ again ▸ List.mem_map_of_mem later)
      · simp only [put, same, if_false, List.mem_cons] at listed
        rcases listed with rfl | later
        · exact .inr ⟨by simp, same⟩
        · rcases ih distinct.2 later with put | ⟨kept, other⟩
          · exact .inl put
          · exact .inr ⟨by simp [kept], other⟩

end Put

section Pairs

/-! All pairs put in turn: the inductions add the last pair. -/

theorem ofPairs_append (pairs : List (String × Value)) (pair : String × Value) :
    ofPairs (pairs ++ [pair]) = (ofPairs pairs).put pair.1 pair.2 := by
  simp [ofPairs]

theorem ofPairs_map {Other : Type} (f : Value → Other) (pairs : List (String × Value)) :
    ofPairs (pairs.map fun pair => (pair.1, f pair.2)) =
      (ofPairs pairs).map fun pair => (pair.1, f pair.2) := by
  induction pairs using List.reverseRecOn with
  | nil => rfl
  | append_singleton pairs pair ih =>
      rw [List.map_append, List.map_singleton, ofPairs_append, ofPairs_append, ih, put_map]

/-- The keys stand where they were first put. -/
theorem keys_ofPairs (pairs : List (String × Value)) :
    (ofPairs pairs).map Prod.fst = (pairs.map Prod.fst).eraseDups := by
  induction pairs using List.reverseRecOn with
  | nil => rfl
  | append_singleton pairs pair ih =>
      rw [ofPairs_append, List.map_append, List.map_singleton, List.eraseDups_append, ← ih]
      by_cases known : pair.1 ∈ pairs.map Prod.fst
      · rw [keys_put_known (by rwa [ih, List.mem_eraseDups])]
        simp [List.removeAll, known]
      · rw [put_fresh _ _ _ (by rwa [ih, List.mem_eraseDups])]
        simp [List.removeAll, known, List.eraseDups_cons]

theorem ofPairs_eq_nil_iff {pairs : List (String × Value)} : ofPairs pairs = [] ↔ pairs = [] := by
  rw [← List.map_eq_nil_iff, keys_ofPairs]
  cases pairs <;> simp [List.eraseDups_cons]

theorem keys_ofPairs_nodup (pairs : List (String × Value)) :
    ((ofPairs pairs).map Prod.fst).Nodup := by
  induction pairs using List.reverseRecOn with
  | nil => exact List.nodup_nil
  | append_singleton pairs pair ih =>
      rw [ofPairs_append]
      by_cases known : pair.1 ∈ (ofPairs pairs).map Prod.fst
      · rwa [keys_put_known known]
      · rw [put_fresh _ _ _ known, List.map_append, List.map_singleton, List.nodup_append]
        refine ⟨ih, by simp, ?_⟩
        intro key listed other last
        rw [List.mem_singleton.mp last]
        exact ne_of_mem_of_not_mem listed known

/-- Under keys of their own the entries keep their order. -/
theorem ofPairs_eq {pairs : List (String × Value)} (distinct : (pairs.map Prod.fst).Nodup) :
    ofPairs pairs = pairs := by
  induction pairs using List.reverseRecOn with
  | nil => rfl
  | append_singleton pairs pair ih =>
      rw [List.map_append, List.map_singleton, List.nodup_append] at distinct
      have kept := ih distinct.1
      rw [ofPairs_append, kept, put_fresh]
      intro known
      exact distinct.2.2 pair.1 known pair.1 (by simp) rfl

/-- Of the pairs under one key the last is kept. -/
theorem last_of_mem_ofPairs {pairs : List (String × Value)} {entry : String × Value}
    (listed : entry ∈ ofPairs pairs) :
    (pairs.filter (·.1 = entry.1)).getLast? = some entry := by
  induction pairs using List.reverseRecOn with
  | nil => cases listed
  | append_singleton pairs pair ih =>
      rw [ofPairs_append] at listed
      rw [List.filter_append, List.getLast?_append]
      rcases mem_put (keys_ofPairs_nodup pairs) listed with rfl | ⟨kept, other⟩
      · simp
      · simp [Ne.symm other, ih kept]

theorem mem_ofPairs {pairs : List (String × Value)} {entry : String × Value}
    (listed : entry ∈ ofPairs pairs) : entry ∈ pairs :=
  (List.mem_filter.mp (List.mem_of_getLast? (last_of_mem_ofPairs listed))).1

end Pairs

end SchemaClasses.Entries
