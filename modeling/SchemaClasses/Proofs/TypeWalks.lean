import SchemaClasses.Proofs.Phrases

/-!
The walks through a type. One writes the bare expression, one the declaration, and one only looks
for the name at the leaf. They go through any tree of wrappers, and a leaf that is not a type
stops all three alike. By then the symbols of the wrappers are in the context, from the outside
in, whether or not the symbol of the leaf follows.
-/

namespace SchemaClasses.Build

open Schema Naming

section Symbols

/-- The names that are not yet known, each at its first place. -/
def newNames (known names : List String) : List String :=
  (names.filter (· ∉ known)).eraseDups

theorem newNames_known {known : List String} {name : String} (listed : name ∈ known)
    (names : List String) : newNames known (name :: names) = newNames known names := by
  simp [newNames, listed]

theorem newNames_fresh {known : List String} {name : String} (fresh : name ∉ known)
    (names : List String) :
    newNames known (name :: names) = name :: newNames (known ++ [name]) names := by
  have apart : (names.filter (· ∉ known)).filter (fun other => !other == name) =
      names.filter (· ∉ known ++ [name]) := by
    rw [List.filter_filter]
    apply List.filter_congr
    intro other _
    by_cases same : other = name <;> simp [same]
  rw [newNames, List.filter_cons_of_pos (by simpa using fresh), List.eraseDups_cons, apart]
  rfl

/-- Notes on symbols only add the new ones to the context. -/
theorem Context.recordAll_uses (context : Context) (symbols : List String) :
    context.recordAll (symbols.map .uses) =
      { context with symbols := context.symbols ++ newNames context.symbols symbols } := by
  induction symbols generalizing context with
  | nil => simp [recordAll, newNames]
  | cons symbol rest ih =>
      change (context.addSymbol symbol).recordAll (rest.map .uses) = _
      by_cases known : symbol ∈ context.symbols
      · rw [addSymbol, if_pos known, ih, newNames_known known]
      · rw [addSymbol, if_neg known, ih, newNames_fresh known]
        simp

end Symbols

section Walks

/-- The names of the wrappers, from the outside in. -/
def wrapperNames {Leaf : Type} : TypeExpr Leaf → List String
  | .leaf _ => []
  | .list item => "List" :: wrapperNames item
  | .nonNull item => "NonNull" :: wrapperNames item

def leafSymbols : Leaf → List String
  | .named name => if isBuiltinScalar name then [name] else []
  | .foreign _ => []

def walkSymbols (tree : TypeTree) : List String :=
  wrapperNames tree ++ leafSymbols tree.innermost

/-- Calls of the given heads around a text, the first one outermost. -/
def enclosed (heads : List String) (inner : String) : String :=
  heads.foldr (fun head text => head ++ "(" ++ text ++ ")") inner

/-- The same with keywords for the outermost call. -/
def enclosedWith (keywords : String) (heads : List String) (inner : String) : String :=
  match heads with
  | [] => inner
  | head :: others => head ++ "(" ++ enclosed others inner ++ trailing keywords ++ ")"

theorem enclosedWith_empty {heads : List String} (filled : heads ≠ []) :
    enclosedWith "" heads = enclosed heads := by
  obtain ⟨head, others, rfl⟩ := List.exists_cons_of_ne_nil filled
  funext inner
  simp [enclosedWith, enclosed, trailing]

/-- One wrapper more: its symbol is noted before those of the item, and a refusal of the item
passes through. -/
theorem walk_wrapper (head : String) {item : TypeTree} (write : String → String)
    (inner : resolveType item =
      ⟨(walkSymbols item).map .uses, (namedType item).map (enclosed (wrapperNames item))⟩) :
    (do
      Recorded.uses head
      return write (← resolveType item)) =
      ⟨(head :: walkSymbols item).map .uses,
        (namedType item).map fun name => write (enclosed (wrapperNames item) name)⟩ := by
  rw [inner]
  cases namedType item with
  | error refusal => rfl
  | ok name => simp [Except.map]

/-- The bare expression is the name that the third walk finds, in the calls of the wrappers. -/
theorem resolveType_eq (tree : TypeTree) :
    resolveType tree =
      ⟨(walkSymbols tree).map .uses, (namedType tree).map (enclosed (wrapperNames tree))⟩ := by
  induction tree with
  | leaf value =>
      cases value with
      | named name =>
          by_cases builtin : isBuiltinScalar name = true
          · simp [resolveType, walkSymbols, wrapperNames, leafSymbols, TypeExpr.innermost, builtin,
              namedType, leafName, enclosed, Except.map]
          · simp [resolveType, walkSymbols, wrapperNames, leafSymbols, TypeExpr.innermost, builtin,
              namedType, leafName, enclosed, Except.map]
      | foreign kind => rfl
  | list item ih => exact walk_wrapper "List" (fun text => "List(" ++ text ++ ")") ih
  | nonNull item ih => exact walk_wrapper "NonNull" (fun text => "NonNull(" ++ text ++ ")") ih

/-- Under a wrapper a declaration differs from the bare expression by its keywords alone. -/
theorem declareType_wrapped {tree : TypeTree} (wrapped : wrapperNames tree ≠ [])
    (keywords container : String) :
    declareType tree keywords container =
      ⟨(walkSymbols tree).map .uses,
        (namedType tree).map (enclosedWith keywords (wrapperNames tree))⟩ := by
  cases tree with
  | leaf value => exact absurd rfl wrapped
  | list item =>
      exact walk_wrapper "List" (fun text => "List(" ++ text ++ trailing keywords ++ ")")
        (resolveType_eq item)
  | nonNull item =>
      exact walk_wrapper "NonNull" (fun text => "NonNull(" ++ text ++ trailing keywords ++ ")")
        (resolveType_eq item)

/-- A declaration is refused just where the search for the name is. -/
theorem declareType_outcome_eq (tree : TypeTree) (keywords container : String) :
    ∃ write : String → String,
      (declareType tree keywords container).outcome = (namedType tree).map write := by
  by_cases wrapped : wrapperNames tree = []
  · cases tree with
    | leaf value =>
        cases value with
        | named name =>
            rw [declareType]
            split
            · exact ⟨fun _ => name ++ "(" ++ keywords ++ ")", rfl⟩
            · exact ⟨fun _ => container ++ "(" ++ name ++ trailing keywords ++ ")", rfl⟩
        | foreign kind => exact ⟨id, rfl⟩
    | list item => cases wrapped
    | nonNull item => cases wrapped
  · exact ⟨_, by rw [declareType_wrapped wrapped]⟩

end Walks

section Deletion

/-- The text without calls of wrappers: what opens one is left out, and every closing bracket. -/
def withoutCalls : List Char → List Char
  | [] => []
  | 'N' :: 'o' :: 'n' :: 'N' :: 'u' :: 'l' :: 'l' :: '(' :: rest => withoutCalls rest
  | 'L' :: 'i' :: 's' :: 't' :: '(' :: rest => withoutCalls rest
  | c :: rest => if c = ')' then withoutCalls rest else c :: withoutCalls rest

/-- A bracket that closes at the end opens nothing before it. -/
theorem begins_of_closed (opening : List Char) {text more : List Char} (unclosed : ')' ∉ opening)
    (begins : text ++ [')'] = opening ++ more) : ∃ others, text = opening ++ others := by
  rcases List.append_eq_append_iff.mp begins with ⟨middle, split, last⟩ | ⟨others, split, _⟩
  · cases middle with
    | nil => exact ⟨[], by simpa using split.symm⟩
    | cons c tail =>
        have closer : c = ')' := by
          simp only [List.cons_append, List.cons.injEq] at last
          exact last.1.symm
        exact absurd (by simp [split, closer]) unclosed
  · exact ⟨others, split⟩

theorem withoutCalls_closed (text : List Char) :
    withoutCalls (text ++ [')']) = withoutCalls text := by
  fun_induction withoutCalls text with
  | case1 => rfl
  | case2 rest ih => exact ih
  | case3 rest ih => exact ih
  | case4 rest noNonNull noList ih => exact ih
  | case5 c rest noNonNull noList other ih =>
      rw [List.cons_append, withoutCalls, if_neg other, ih]
      · intro more first begins
        obtain ⟨others, tail⟩ := begins_of_closed "onNull(".toList (by decide) begins
        exact noNonNull others first tail
      · intro more first begins
        obtain ⟨others, tail⟩ := begins_of_closed "ist(".toList (by decide) begins
        exact noList others first tail

/-- Whatever is at the leaf, the calls of the wrappers go. -/
theorem withoutCalls_enclosed (tree : TypeTree) (inner : String) :
    withoutCalls (enclosed (wrapperNames tree) inner).toList = withoutCalls inner.toList := by
  induction tree with
  | leaf value => rfl
  | list item ih =>
      have text : (enclosed (wrapperNames (.list item)) inner).toList =
          'L' :: 'i' :: 's' :: 't' :: '(' ::
            ((enclosed (wrapperNames item) inner).toList ++ [')']) := by
        simp [enclosed, wrapperNames]
      rw [text, withoutCalls, withoutCalls_closed, ih]
  | nonNull item ih =>
      have text : (enclosed (wrapperNames (.nonNull item)) inner).toList =
          'N' :: 'o' :: 'n' :: 'N' :: 'u' :: 'l' :: 'l' :: '(' ::
            ((enclosed (wrapperNames item) inner).toList ++ [')']) := by
        simp [enclosed, wrapperNames]
      rw [text, withoutCalls, withoutCalls_closed, ih]

/-- Where there are no brackets there are no calls. -/
theorem withoutCalls_plain {text : List Char} (plain : ∀ c ∈ text, c ≠ '(' ∧ c ≠ ')') :
    withoutCalls text = text := by
  fun_induction withoutCalls text with
  | case1 => rfl
  | case2 rest ih => exact absurd rfl (plain '(' (by simp)).1
  | case3 rest ih => exact absurd rfl (plain '(' (by simp)).1
  | case4 rest noNonNull noList ih => exact absurd rfl (plain ')' (by simp)).2
  | case5 c rest noNonNull noList other ih => rw [ih fun d member => plain d (by simp [member])]

theorem withoutCalls_name {name : String} (spelled : spellsName name.toList = true) :
    withoutCalls name.toList = name.toList := by
  apply withoutCalls_plain
  intro c member
  have part := namePart_of_spellsName spelled c member
  constructor
  · rintro rfl
    exact absurd part (by decide)
  · rintro rfl
    exact absurd part (by decide)

end Deletion

section Agreement

/-- All three walks are refused at a leaf that is not a type, or none is. The bare expression is
then the name in the calls of the wrappers, and without them it is the name alone. Either way the
context takes up the symbols of the wrappers from the outside in, then that of a built-in scalar,
and a declaration under a wrapper leaves the same context. -/
theorem walks_agree (tree : TypeTree) (keywords container : String) (context : Context) :
    (∀ kind, tree.innermost = .foreign kind →
      ((resolveType tree).runIn context).1 = .error (.malformedType kind) ∧
      ((declareType tree keywords container).runIn context).1 = .error (.malformedType kind) ∧
      namedType tree = .error (.malformedType kind)) ∧
    (∀ name, tree.innermost = .named name →
      ((resolveType tree).runIn context).1 = .ok (enclosed (wrapperNames tree) name) ∧
      (∃ text, ((declareType tree keywords container).runIn context).1 = .ok text) ∧
      namedType tree = .ok name ∧
      withoutCalls (enclosed (wrapperNames tree) name).toList = withoutCalls name.toList ∧
      (spellsName name.toList = true →
        withoutCalls (enclosed (wrapperNames tree) name).toList = name.toList)) ∧
    ((resolveType tree).runIn context).2 =
      { context with
        symbols := context.symbols ++ newNames context.symbols (walkSymbols tree) } ∧
    (wrapperNames tree ≠ [] →
      ((declareType tree keywords container).runIn context).2 =
        ((resolveType tree).runIn context).2 ∧
      (declareType tree "" container).runIn context = (resolveType tree).runIn context) := by
  obtain ⟨write, declared⟩ := declareType_outcome_eq tree keywords container
  simp only [Recorded.runIn, resolveType_eq, declared, Context.recordAll_uses]
  refine ⟨?_, ?_, trivial, ?_⟩
  · intro kind leaf
    have found : namedType tree = .error (.malformedType kind) := by rw [namedType, leaf, leafName]
    rw [found]
    exact ⟨rfl, rfl, rfl⟩
  · intro name leaf
    have found : namedType tree = .ok name := by rw [namedType, leaf, leafName]
    have deleted := withoutCalls_enclosed tree name
    rw [found]
    exact ⟨rfl, ⟨write name, rfl⟩, rfl, deleted,
      fun spelled => deleted.trans (withoutCalls_name spelled)⟩
  · intro wrapped
    rw [declareType_wrapped wrapped, declareType_wrapped wrapped, enclosedWith_empty wrapped,
      Context.recordAll_uses]
    exact ⟨rfl, rfl⟩

/-- Three wrappers, two of them alike, around any leaf. -/
def threefold (leaf : Leaf) : TypeTree :=
  .nonNull (.list (.nonNull (.leaf leaf)))

/-- One of the wrappers is known from before. Within them stands something that is not a type, or
a type that has the name of a wrapper. -/
theorem walks_agree_threefold :
    let context : Context := { symbols := ["List"] }
    let after : Context := { symbols := ["List", "NonNull"] }
    let foreign := threefold (.foreign "IntValueNode")
    let named := threefold (.named "List")
    (resolveType foreign).runIn context = (.error (.malformedType "IntValueNode"), after) ∧
    (declareType foreign "a=1" "Field").runIn context =
      (.error (.malformedType "IntValueNode"), after) ∧
    namedType foreign = .error (.malformedType "IntValueNode") ∧
    (resolveType named).runIn context = (.ok "NonNull(List(NonNull(List)))", after) ∧
    (declareType named "" "Field").runIn context = (resolveType named).runIn context ∧
    namedType named = .ok "List" ∧
    withoutCalls "NonNull(List(NonNull(List)))".toList = "List".toList := by
  intro context after foreign named
  -- Neither leaf has a symbol of its own, so both trees leave the same context.
  have left : ({ symbols := ["List"] ++ newNames ["List"] ["NonNull", "List", "NonNull"] } :
      Context) = after := by decide
  obtain ⟨refused, _, kept, wrapped⟩ := walks_agree foreign "a=1" "Field" context
  obtain ⟨resolved, declared, found⟩ := refused "IntValueNode" rfl
  obtain ⟨_, read, alsoKept, alsoWrapped⟩ := walks_agree named "" "Field" context
  obtain ⟨written, _, name, _, deleted⟩ := read "List" rfl
  have foreignLeft : ((resolveType foreign).runIn context).2 = after := kept.trans left
  have namedLeft : ((resolveType named).runIn context).2 = after := alsoKept.trans left
  exact ⟨Prod.ext resolved foreignLeft,
    Prod.ext declared ((wrapped (by decide)).1.trans foreignLeft), found,
    Prod.ext written namedLeft, (alsoWrapped (by decide)).2, name, deleted (by decide)⟩

end Agreement

end SchemaClasses.Build
