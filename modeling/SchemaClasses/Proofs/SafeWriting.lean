import SchemaClasses.Command.Run

/-!
What the command does to the files around it. It writes one file, at its very end and only if
everything before has succeeded, so a failed run leaves the tree as it was, wherever it failed
and whichever of the paths are the same.
-/

namespace SchemaClasses.Files.FileTree

section Writing

theorem file?_put (tree : FileTree) (path : Path) (text : String) :
    (tree.put path text).file? path = some text := by
  have gone : List.lookup path (tree.files.filter (·.1 ≠ path)) = none := by
    rw [List.lookup_eq_none_iff]
    intro file listed
    have apart := of_decide_eq_true (List.mem_filter.mp listed).2
    exact bne_iff_ne.mpr (Ne.symm apart)
  rw [put, file?, List.lookup_append, gone, Option.none_or, List.lookup_cons_self]

theorem file?_put_ne (tree : FileTree) {path other : Path} (apart : other ≠ path)
    (text : String) : (tree.put path text).file? other = tree.file? other := by
  have kept : List.lookup other (tree.files.filter (·.1 ≠ path)) = tree.file? other := by
    rw [file?]
    induction tree.files with
    | nil => rfl
    | cons file rest ih =>
        by_cases same : file.1 = path
        · have skipped : (other == file.1) = false := beq_false_of_ne (same ▸ apart)
          rw [List.filter_cons_of_neg (by simpa using same), ih, List.lookup_cons, skipped]
        · rw [List.filter_cons_of_pos (by simpa using same), List.lookup_cons, List.lookup_cons,
            ih]
  have last : List.lookup other [(path, text)] = none := by
    rw [List.lookup_cons, beq_false_of_ne apart, List.lookup_nil]
  rw [put, file?, List.lookup_append, kept, last, Option.or_none]

theorem write_eq_put {tree after : FileTree} {path : Path} {text : String}
    (done : tree.write path text = .ok after) : after = tree.put path text := by
  unfold write at done
  split at done
  · cases done
  split at done
  · cases done
  split at done
  · cases done
  · exact (Except.ok.inj done).symm

end Writing

end SchemaClasses.Files.FileTree

namespace SchemaClasses.Command

open Files Build Output

section Runs

/-! A run of `generate` under options that are already read. -/

def outputPath (place : Place) (options : Options) : Path :=
  Path.resolve place.start options.output

/-- The schema can be loaded, and this is generated from it. -/
def Generates (place : Place) (options : Options) (generated : Generated) : Prop :=
  ∃ document, (place.tree.load place.start options.schema).outcome = .ok document ∧
    (generatorOf place options).generateDocument document
      (some (nameOf (outputPath place options))) = .ok generated

/-- The run fails and leaves the tree as it was. -/
structure Outcome.Fails (outcome : Outcome) (place : Place) : Prop where
  exitCode : outcome.exitCode ≠ 0
  tree : outcome.tree = place.tree

/-- The run succeeds and leaves this tree. -/
structure Outcome.Leaves (outcome : Outcome) (after : FileTree) : Prop where
  exitCode : outcome.exitCode = 0
  tree : outcome.tree = after

theorem runGenerate_leaves {place : Place} {options : Options} {generated : Generated}
    {after : FileTree} (known : Generates place options generated)
    (written : place.tree.write (outputPath place options) generated.content = .ok after) :
    (runGenerate place options).Leaves after := by
  obtain ⟨document, loaded, made⟩ := known
  rw [outputPath] at written made
  simp only [runGenerate, loaded, generateFrom, made, writeOutput, written]
  exact ⟨rfl, rfl⟩

/-- Either nothing is written, or all that was generated. -/
theorem runGenerate_cases (place : Place) (options : Options) :
    (runGenerate place options).Fails place ∨
      ∃ generated after, Generates place options generated ∧
        place.tree.write (outputPath place options) generated.content = .ok after ∧
        (runGenerate place options).Leaves after := by
  cases loaded : (place.tree.load place.start options.schema).outcome with
  | error loadFault =>
      simp only [runGenerate, loaded]
      exact .inl ⟨by simp [failed], rfl⟩
  | ok document =>
      cases made : (generatorOf place options).generateDocument document
          (some (nameOf (outputPath place options))) with
      | error failure =>
          rw [outputPath] at made
          simp only [runGenerate, loaded, generateFrom, made]
          cases failure <;> exact .inl ⟨by simp [failed, escape], rfl⟩
      | ok generated =>
          have known : Generates place options generated := ⟨document, loaded, made⟩
          cases written : place.tree.write (outputPath place options) generated.content with
          | error fault =>
              rw [outputPath] at made written
              simp only [runGenerate, loaded, generateFrom, made, writeOutput, written]
              exact .inl ⟨by simp [escape], rfl⟩
          | ok after =>
              exact .inr ⟨generated, after, known, written, runGenerate_leaves known written⟩

end Runs

section Arguments

/-! The command line as a whole. -/

theorem optionMisuse_fails (place : Place) (usage : String) (fault : OptionFault) :
    (optionMisuse place usage fault).Fails place := by
  cases fault <;> exact ⟨by simp [optionMisuse, misuse], rfl⟩

theorem misuse_fails (place : Place) (usage message : String) :
    (misuse place usage message).Fails place :=
  ⟨by simp [misuse], rfl⟩

/-- The call fails, or only asks for help, or writes what its options ask for. -/
theorem runGenerateArguments_cases (place : Place) (arguments : List String) :
    (runGenerateArguments place arguments).Fails place ∨
      ∃ parsed, readArguments optionSpecs true arguments = .ok parsed ∧
        (isGiven parsed.given .help = true ∧
            (runGenerateArguments place arguments).Leaves place.tree ∨
          isGiven parsed.given .help = false ∧
            ∃ options generated after, optionsOf place parsed = .ok options ∧
              Generates place options generated ∧
              place.tree.write (outputPath place options) generated.content = .ok after ∧
              (runGenerateArguments place arguments).Leaves after) := by
  unfold runGenerateArguments
  cases read : readArguments optionSpecs true arguments with
  | error fault => exact .inl (optionMisuse_fails place _ fault)
  | ok parsed =>
      cases help : isGiven parsed.given .help with
      | true =>
          simp only [help, if_true]
          exact .inr ⟨parsed, rfl, .inl ⟨help, rfl, rfl⟩⟩
      | false =>
          simp only [help]
          cases chosen : optionsOf place parsed with
          | error fault => exact .inl (misuse_fails place _ _)
          | ok options =>
              rcases runGenerate_cases place options with fails |
                ⟨generated, after, known, written, leaves⟩
              · exact .inl fails
              · exact .inr ⟨parsed, rfl, .inr ⟨help, options, generated, after, chosen, known,
                  written, leaves⟩⟩

/-- The arguments of the `generate` command, if that is what is called. -/
def generateCall? (arguments : List String) : Option (List String) :=
  match readArguments programSpecs false arguments with
  | .ok ⟨[], "generate" :: inner⟩ => some inner
  | _ => none

theorem run_generateCall {arguments inner : List String}
    (called : generateCall? arguments = some inner) (place : Place) :
    run place arguments = runGenerateArguments place inner := by
  unfold generateCall? at called
  split at called
  · rename_i read
    cases called
    simp [run, read, runCommand]
  · cases called

/-- Nothing but the `generate` command touches a file. -/
theorem run_other_tree {arguments : List String} (other : generateCall? arguments = none)
    (place : Place) : (run place arguments).tree = place.tree := by
  unfold run
  unfold generateCall? at other
  cases read : readArguments programSpecs false arguments with
  | error fault => exact (optionMisuse_fails place _ fault).tree
  | ok parsed =>
      obtain ⟨given, others⟩ := parsed
      simp only [read] at other ⊢
      cases given with
      | cons first rest =>
          obtain ⟨key, value⟩ := first
          cases key <;> rfl
      | nil =>
          cases others with
          | nil => rfl
          | cons command inner =>
              have different : command ≠ "generate" := by
                rintro rfl
                simp at other
              simp [runCommand, different, misuse]

/-- The tree holds, at the output path, what is generated from the loaded schema under the
options, and is otherwise as before. -/
def WritesOnlyGenerated (place : Place) (options : Options) (after : FileTree) : Prop :=
  ∃ document generated,
    (place.tree.load place.start options.schema).outcome = .ok document ∧
    (generatorOf place options).generateDocument document
      (some (nameOf (outputPath place options))) = .ok generated ∧
    after.file? (outputPath place options) = some generated.content ∧
    ∀ path ≠ outputPath place options, after.file? path = place.tree.file? path

/-- A schema file in a folder, and a file next to the folder. -/
def libraryPlace : Place where
  tree := {
    files := [(["schema", "a.gql"], "# Codes.\r\nscalar Isbn"),
      (["notes.txt"], "keep")] }

/-- The output takes the place of the schema file. -/
def overSchema : List String :=
  ["generate", "-s", "schema/a.gql", "-o", "new/../schema/a.gql", "--no-schema-wiring"]

/-- The output path is that of the folder. -/
def overFolder : List String :=
  ["generate", "-s", "schema/a.gql", "-o", "./schema/"]

end Arguments

end SchemaClasses.Command
