import Mathlib.Data.List.Dedup
import Mathlib.Data.List.Infix
import Mathlib.Data.List.Nodup
import SchemaClasses.Files.Load

/-!
Loading a folder. Its files come up in whatever order the folders list their entries, but no two
of them have the same path text, so that sorting leaves a single order. The files are read in
that order up to the first one that cannot be read, and this one is reported.
-/

namespace SchemaClasses.Files

open Schema

namespace Path

/-- Components are not empty and hold no slash. -/
def Clean (path : Path) : Prop :=
  ∀ component ∈ path, component ≠ "" ∧ '/' ∉ component.toList

instance (path : Path) : Decidable path.Clean :=
  inferInstanceAs (Decidable (∀ component ∈ path, _))

theorem text_eq_empty {path : Path} (clean : path.Clean) : path.text = "" ↔ path = [] := by
  cases path with
  | nil => simp [text]
  | cons first rest =>
      have filled := (clean first List.mem_cons_self).1
      cases rest with
      | nil => simpa [text] using filled
      | cons second rest => simp [text, String.intercalate_cons_cons, filled]

theorem splitOn_text {path : Path} (filled : path ≠ []) (clean : path.Clean) :
    path.text.toList.splitOn '/' = path.map String.toList := by
  rw [text, String.toList_intercalate]
  apply List.splitOn_intercalate
  · intro chars listed
    obtain ⟨component, inside, rfl⟩ := List.mem_map.mp listed
    exact (clean component inside).2
  · simpa using filled

theorem text_injective {first second : Path} (clean : first.Clean) (alsoClean : second.Clean)
    (same : first.text = second.text) : first = second := by
  by_cases empty : first = []
  · subst empty
    exact ((text_eq_empty alsoClean).mp same.symm).symm
  · have filled : second ≠ [] := by
      rintro rfl
      exact empty ((text_eq_empty clean).mp same)
    have components : first.map String.toList = second.map String.toList := by
      rw [← splitOn_text empty clean, ← splitOn_text filled alsoClean, same]
    exact List.map_injective_iff.mpr (fun _ _ => String.toList_inj.mp) components

end Path

section Sorting

/-- No two files have the same path, nor paths that are written the same. -/
structure Distinct (files : List SourceFile) : Prop where
  paths : (files.map SourceFile.path).Nodup
  clean : ∀ file ∈ files, Path.Clean file.path

variable {files others : List SourceFile}

theorem Distinct.of_perm (distinct : Distinct files) (same : others.Perm files) :
    Distinct others where
  paths := ((same.map SourceFile.path).nodup_iff).mpr distinct.paths
  clean file listed := distinct.clean file (same.mem_iff.mp listed)

theorem Distinct.eq_of_text (distinct : Distinct files) {first second : SourceFile}
    (listed : first ∈ files) (alsoListed : second ∈ files)
    (same : Path.text first.path = Path.text second.path) : first = second :=
  List.inj_on_of_nodup_map distinct.paths listed alsoListed
    (Path.text_injective (distinct.clean first listed) (distinct.clean second alsoListed) same)

theorem sortByPath_perm (files : List SourceFile) : (sortByPath files).Perm files :=
  List.mergeSort_perm _ _

theorem sortByPath_sorted (files : List SourceFile) :
    (sortByPath files).Pairwise fun left right => Path.text left.path ≤ Path.text right.path := by
  refine (List.pairwise_mergeSort ?_ ?_ files).imp ?_
  · intro first second third
    simpa only [Bool.not_eq_true', decide_eq_false_iff_not, String.not_lt] using String.le_trans
  · intro first second
    simpa only [Bool.or_eq_true, Bool.not_eq_true', decide_eq_false_iff_not, String.not_lt]
      using String.le_total _ _
  · intro left right
    simp only [Bool.not_eq_true', decide_eq_false_iff_not, String.not_lt, imp_self]

theorem sortByPath_strict (distinct : Distinct files) :
    (sortByPath files).Pairwise fun left right => Path.text left.path < Path.text right.path := by
  have sorted := distinct.of_perm (sortByPath_perm files)
  have apart : (sortByPath files).Pairwise fun left right => left ≠ right :=
    sorted.paths.of_map
  refine ((sortByPath_sorted files).and apart).imp_of_mem ?_
  rintro left right listed alsoListed ⟨le, different⟩
  exact String.not_le.mp fun ge =>
    different (sorted.eq_of_text listed alsoListed (String.le_antisymm le ge))

/-- Whatever the order in which files are found, they are sorted into the same one. -/
theorem sortByPath_eq (distinct : Distinct files) (same : others.Perm files) :
    sortByPath others = sortByPath files := by
  have sorted := distinct.of_perm (sortByPath_perm files)
  have perm : (sortByPath others).Perm (sortByPath files) :=
    (sortByPath_perm others).trans (same.trans (sortByPath_perm files).symm)
  refine perm.eq_of_pairwise ?_ (sortByPath_sorted others) (sortByPath_sorted files)
  intro first second listed alsoListed le ge
  exact sorted.eq_of_text (perm.mem_iff.mp listed) alsoListed (String.le_antisymm le ge)

end Sorting

section Enumerating

/-! The orders in which the files of a folder may be found. Every folder lists its own files and
its subfolders as it likes. Its own files come first, then those of one subfolder after another. -/

/-- The path is that of an entry of the folder. -/
def isEntry (folder path : Path) : Bool :=
  path ≠ [] && path.dropLast = folder

theorem isEntry_iff {folder path : Path} :
    isEntry folder path = true ↔ ∃ name, path = folder ++ [name] := by
  simp only [isEntry, ne_eq, Bool.and_eq_true, decide_eq_true_eq]
  constructor
  · rintro ⟨filled, rfl⟩
    exact ⟨path.getLast (by simpa using filled), (List.dropLast_concat_getLast _).symm⟩
  · rintro ⟨name, rfl⟩
    simp

namespace FileTree

inductive Enumerates (tree : FileTree) : Path → List (Path × String) → Prop where
  | folder {folder : Path} {own : List (Path × String)}
      {inner : List (Path × List (Path × String))}
      (files : own.Perm (tree.files.filter fun file => isEntry folder file.1))
      (distinct : (inner.map Prod.fst).Nodup)
      (folders : ∀ path, path ∈ inner.map Prod.fst ↔
        isEntry folder path = true ∧ tree.isFolder path = true)
      (below : ∀ entry ∈ inner, tree.Enumerates entry.1 entry.2) :
      tree.Enumerates folder (own ++ inner.flatMap Prod.snd)

/-- No two files have the same path, and paths are written with clean components. -/
structure Proper (tree : FileTree) : Prop where
  paths : (tree.files.map Prod.fst).Nodup
  clean : ∀ file ∈ tree.files, Path.Clean file.1

variable {tree : FileTree} {folder : Path} {found : List (Path × String)}

theorem Enumerates.mem_iff (enumerated : tree.Enumerates folder found) (file : Path × String) :
    file ∈ found ↔ file ∈ tree.files ∧ ∃ rest, rest ≠ [] ∧ file.1 = folder ++ rest := by
  induction enumerated with
  | @folder folder own inner files distinct folders below ih =>
      rw [List.mem_append, files.mem_iff, List.mem_filter, isEntry_iff, List.mem_flatMap]
      constructor
      · rintro (⟨known, name, path⟩ | ⟨entry, inside, deeper⟩)
        · exact ⟨known, [name], by simp, path⟩
        · obtain ⟨known, rest, _, path⟩ := (ih entry inside).mp deeper
          obtain ⟨name, child⟩ :=
            isEntry_iff.mp ((folders entry.1).mp (List.mem_map_of_mem inside)).1
          exact ⟨known, name :: rest, by simp, by rw [path, child]; simp⟩
      · rintro ⟨known, rest, filled, path⟩
        obtain ⟨name, rest, rfl⟩ := List.exists_cons_of_ne_nil filled
        by_cases own : rest = []
        · exact .inl ⟨known, name, by rw [path, own]⟩
        · -- The file lies further down, so there is a subfolder that leads to it.
          have there : tree.isFolder (folder ++ [name]) = true := by
            have leads : (folder ++ [name]).isPrefixOf file.1 && folder ++ [name] != file.1 := by
              simp [path, own]
            simp only [isFolder, Bool.or_eq_true]
            exact .inr (List.any_eq_true.mpr ⟨file, known, leads⟩)
          obtain ⟨entry, inside, child⟩ := List.mem_map.mp
            ((folders (folder ++ [name])).mpr ⟨isEntry_iff.mpr ⟨name, rfl⟩, there⟩)
          refine .inr ⟨entry, inside, (ih entry inside).mpr ⟨known, rest, own, ?_⟩⟩
          rw [path, child]
          simp

theorem Enumerates.nodup (enumerated : tree.Enumerates folder found) (proper : tree.Proper) :
    found.Nodup := by
  induction enumerated with
  | @folder folder own inner files distinct folders below ih =>
      have deeper : ∀ entry ∈ inner, ∀ file ∈ entry.2, ∃ name rest, rest ≠ [] ∧
          entry.1 = folder ++ [name] ∧ file.1 = folder ++ name :: rest := by
        intro entry inside file found
        obtain ⟨name, child⟩ :=
          isEntry_iff.mp ((folders entry.1).mp (List.mem_map_of_mem inside)).1
        obtain ⟨_, rest, filled, path⟩ := ((below entry inside).mem_iff file).mp found
        exact ⟨name, rest, filled, child, by rw [path, child]; simp⟩
      have ownNodup : own.Nodup := files.nodup_iff.mpr (proper.paths.of_map.filter _)
      have innerNodup : (inner.flatMap Prod.snd).Nodup := by
        refine List.nodup_flatMap.mpr ⟨ih, ?_⟩
        refine (List.pairwise_map.mp distinct).imp_of_mem ?_
        intro first second inside alsoInside different file found alsoFound
        obtain ⟨name, rest, _, child, path⟩ := deeper first inside file found
        obtain ⟨other, others, _, alsoChild, alsoPath⟩ := deeper second alsoInside file alsoFound
        have tails := List.append_cancel_left (path.symm.trans alsoPath)
        exact different (by rw [child, alsoChild, (List.cons.inj tails).1])
      refine List.nodup_append.mpr ⟨ownNodup, innerNodup, ?_⟩
      rintro file found other alsoFound rfl
      obtain ⟨name, path⟩ := isEntry_iff.mp (List.mem_filter.mp (files.mem_iff.mp found)).2
      obtain ⟨entry, inside, within⟩ := List.mem_flatMap.mp alsoFound
      obtain ⟨other, rest, filled, _, alsoPath⟩ := deeper entry inside file within
      have tails := List.append_cancel_left (path.symm.trans alsoPath)
      exact filled (List.cons.inj tails).2.symm

/-- In every order all files below the folder are found, and each of them once. -/
theorem Enumerates.perm (enumerated : tree.Enumerates folder found) (proper : tree.Proper)
    (noFile : tree.file? folder = none) :
    found.Perm (tree.files.filter fun file => folder.isPrefixOf file.1) := by
  refine (List.perm_ext_iff_of_nodup (enumerated.nodup proper)
    (proper.paths.of_map.filter _)).mpr fun file => ?_
  rw [enumerated.mem_iff, List.mem_filter, List.isPrefixOf_iff_prefix]
  refine and_congr_right fun known => ⟨?_, ?_⟩
  · rintro ⟨rest, _, path⟩
    exact ⟨rest, path.symm⟩
  · rintro ⟨rest, path⟩
    refine ⟨rest, ?_, path.symm⟩
    rintro rfl
    rw [List.append_nil] at path
    have absent := List.lookup_eq_none_iff.mp noFile file known
    simp [path] at absent

/-- All paths that lead to something in the tree. -/
def ways (tree : FileTree) : List Path :=
  (tree.folders ++ tree.files.map Prod.fst).flatMap List.inits

theorem mem_ways {path : Path} (filled : path ≠ []) (there : tree.isFolder path = true) :
    path ∈ tree.ways := by
  simp only [isFolder, Bool.or_eq_true, List.any_eq_true, List.isEmpty_iff, filled, false_or,
    Bool.and_eq_true, List.isPrefixOf_iff_prefix] at there
  rw [ways, List.mem_flatMap]
  rcases there with ⟨below, known, leads⟩ | ⟨file, known, leads, _⟩
  · exact ⟨below, List.mem_append_left _ known, (List.mem_inits path below).mpr leads⟩
  · exact ⟨file.1, List.mem_append_right _ (List.mem_map_of_mem known),
      (List.mem_inits path file.1).mpr leads⟩

/-- The folders that a folder lists. -/
def subfolders (tree : FileTree) (folder : Path) : List Path :=
  (tree.ways.filter fun path => isEntry folder path && tree.isFolder path).dedup

theorem mem_subfolders {folder path : Path} :
    path ∈ tree.subfolders folder ↔ isEntry folder path = true ∧ tree.isFolder path = true := by
  rw [subfolders, List.mem_dedup, List.mem_filter, Bool.and_eq_true, and_iff_right_iff_imp]
  rintro ⟨entry, there⟩
  obtain ⟨name, rfl⟩ := isEntry_iff.mp entry
  exact mem_ways (by simp) there

/-- Folders lie within each other only so deep, so that there is always an order. -/
theorem exists_enumerates (tree : FileTree) (folder : Path) :
    ∃ found, tree.Enumerates folder found := by
  obtain ⟨depth, bound⟩ : ∃ depth, ∀ path ∈ tree.ways, path.length ≤ depth :=
    ⟨tree.ways.flatten.length, fun path known => (List.sublist_flatten_of_mem known).length_le⟩
  -- The induction is on how much deeper a folder can lie.
  induction left : depth - folder.length using Nat.strongRecOn generalizing folder with
  | ind left ih =>
      have below : ∀ path ∈ tree.subfolders folder, ∃ found, tree.Enumerates path found := by
        intro path listed
        obtain ⟨entry, there⟩ := mem_subfolders.mp listed
        obtain ⟨name, rfl⟩ := isEntry_iff.mp entry
        have within := bound _ (mem_ways (by simp) there)
        rw [List.length_append, List.length_singleton] at within
        exact ih _ (by simp; omega) _ rfl
      choose! found enumerated using below
      refine ⟨_, @Enumerates.folder tree folder _
        ((tree.subfolders folder).map fun path => (path, found path)) (.refl _) ?_ ?_ ?_⟩
      · simpa [Function.comp_def, subfolders] using List.nodup_dedup _
      · intro path
        simpa [Function.comp_def] using mem_subfolders
      · intro entry listed
        obtain ⟨path, inside, rfl⟩ := List.mem_map.mp listed
        exact enumerated path inside

end FileTree

end Enumerating

section Reading

/-- Unless it is blank, the file holds a document. -/
def SourceFile.Readable (file : SourceFile) : Prop :=
  Text.isBlankText file.text = false → ∃ document, Sdl.readDocument file.text = .ok document

/-- The definitions in a file that can be read. -/
def SourceFile.definitions (file : SourceFile) : Document :=
  if Text.isBlankText file.text then [] else (Sdl.readDocument file.text).toOption.getD []

theorem not_readable_iff {file : SourceFile} :
    ¬ file.Readable ↔ Text.isBlankText file.text = false ∧
      ∃ fault, Sdl.readDocument file.text = .error fault := by
  rw [SourceFile.Readable, Classical.not_imp]
  refine and_congr_right fun _ => ?_
  cases Sdl.readDocument file.text <;> simp

theorem loadFiles_readable {files : List SourceFile} (readable : ∀ file ∈ files, file.Readable)
    (current : String) :
    loadFiles current files = ⟨(files.getLast?.map SourceFile.name).getD current,
      .ok (files.flatMap SourceFile.definitions)⟩ := by
  induction files generalizing current with
  | nil => rfl
  | cons file rest ih =>
      have later := ih (fun other listed => readable other (List.mem_cons_of_mem file listed))
        file.name
      have last : ((file :: rest).getLast?.map SourceFile.name).getD current =
          (rest.getLast?.map SourceFile.name).getD file.name := by
        rw [List.getLast?_cons]
        cases rest.getLast? <;> rfl
      rw [last, List.flatMap_cons, loadFiles, later]
      split
      · rename_i blank
        simp [SourceFile.definitions, blank]
      · rename_i filled
        obtain ⟨document, read⟩ := readable file List.mem_cons_self (by simpa using filled)
        simp [SourceFile.definitions, filled, read, Except.map, Except.toOption]

theorem loadFiles_unreadable {before after : List SourceFile} {bad : SourceFile}
    {fault : Sdl.Fault} (readable : ∀ file ∈ before, file.Readable)
    (filled : Text.isBlankText bad.text = false) (read : Sdl.readDocument bad.text = .error fault)
    (current : String) :
    loadFiles current (before ++ bad :: after) = ⟨bad.name, .error ⟨bad, fault⟩⟩ := by
  induction before generalizing current with
  | nil => simp [loadFiles, filled, read]
  | cons file rest ih =>
      have later := ih (fun other listed => readable other (List.mem_cons_of_mem file listed))
        file.name
      rw [List.cons_append, loadFiles, later]
      split
      · rfl
      · rename_i notBlank
        obtain ⟨document, known⟩ := readable file List.mem_cons_self (by simpa using notBlank)
        rw [known]
        rfl

theorem exists_first_unreadable {files : List SourceFile}
    (broken : ∃ file ∈ files, ¬ file.Readable) :
    ∃ before bad after, files = before ++ bad :: after ∧ (∀ file ∈ before, file.Readable) ∧
      ¬ bad.Readable := by
  induction files with
  | nil => simp at broken
  | cons file rest ih =>
      by_cases readable : file.Readable
      · have later : ∃ other ∈ rest, ¬ other.Readable := by
          obtain ⟨other, listed, unreadable⟩ := broken
          rcases List.mem_cons.mp listed with rfl | within
          · exact absurd readable unreadable
          · exact ⟨other, within, unreadable⟩
        obtain ⟨before, bad, after, rfl, fine, unreadable⟩ := ih later
        exact ⟨file :: before, bad, after, rfl, by simpa using ⟨readable, fine⟩, unreadable⟩
      · exact ⟨[], file, rest, rfl, by simp, readable⟩

end Reading

section Folders

/-- The schema files among those that are found, sorted. -/
def collect (found : List (Path × String)) : List SourceFile :=
  sortByPath <| (found.filter fun file => isSchemaFile file.1).map fun file =>
    ⟨file.1, readText file.2⟩

/-- The schema files below a folder in the order of their path texts. -/
structure FileTree.Listing (tree : FileTree) (folder : Path) (files : List SourceFile) : Prop where
  sorted : files.Pairwise fun left right => Path.text left.path < Path.text right.path
  complete : ∀ file, file ∈ files ↔ folder <+: file.path ∧ isSchemaFile file.path = true ∧
    ∃ content, (file.path, content) ∈ tree.files ∧ file.text = readText content

variable {tree : FileTree} {folder : Path} {found : List (Path × String)}

theorem schemaFilesUnder_eq (tree : FileTree) (folder : Path) :
    tree.schemaFilesUnder folder =
      collect (tree.files.filter fun file => folder.isPrefixOf file.1) := by
  rw [FileTree.schemaFilesUnder, collect, List.filter_filter]
  simp only [Bool.and_comm]

theorem distinct_found (proper : tree.Proper) (within : found.Sublist tree.files) :
    Distinct (found.map fun file => ⟨file.1, readText file.2⟩) where
  paths := by
    rw [List.map_map]
    exact proper.paths.sublist (within.map Prod.fst)
  clean := by
    intro file inside
    obtain ⟨source, known, rfl⟩ := List.mem_map.mp inside
    exact proper.clean source (within.subset known)

theorem listing_schemaFilesUnder (proper : tree.Proper) (folder : Path) :
    tree.Listing folder (tree.schemaFilesUnder folder) where
  sorted := sortByPath_strict (distinct_found proper List.filter_sublist)
  complete := by
    rintro ⟨path, text⟩
    rw [FileTree.schemaFilesUnder, (sortByPath_perm _).mem_iff]
    simp only [List.mem_map, List.mem_filter, Bool.and_eq_true, List.isPrefixOf_iff_prefix,
      SourceFile.mk.injEq, Prod.exists]
    constructor
    · rintro ⟨_, content, ⟨known, below, schema⟩, rfl, rfl⟩
      exact ⟨below, schema, content, known, rfl⟩
    · rintro ⟨below, schema, content, known, rfl⟩
      exact ⟨path, content, ⟨known, below, schema⟩, rfl, rfl⟩

theorem collect_enumerated (enumerated : tree.Enumerates folder found) (proper : tree.Proper)
    (noFile : tree.file? folder = none) : collect found = tree.schemaFilesUnder folder := by
  rw [schemaFilesUnder_eq]
  apply sortByPath_eq (distinct_found proper (List.filter_sublist.trans List.filter_sublist))
  exact ((enumerated.perm proper noFile).filter _).map _

/-- Whatever the order in which a folder and those in it list their entries, its schema files are
read in the order of their path texts. Either all of them can be read, or the first one that
cannot is reported. -/
theorem load_folder {start : Path} {text : String} (proper : tree.Proper)
    (located : tree.locate start text = some folder) (noFile : tree.file? folder = none) :
    (∃ found, tree.Enumerates folder found) ∧
    (∀ found, tree.Enumerates folder found →
      loadFiles "" (collect found) = tree.load start text) ∧
    ∃ files, tree.Listing folder files ∧
      ((∀ file ∈ files, file.Readable) →
        (tree.load start text).outcome = .ok (files.flatMap SourceFile.definitions) ∧
        (tree.load start text).printed = "" ∧
        (tree.load start text).currentFile = (files.getLast?.map SourceFile.name).getD "") ∧
      ((∃ file ∈ files, ¬ file.Readable) →
        ∃ before bad after fault, files = before ++ bad :: after ∧
          (∀ file ∈ before, file.Readable) ∧ Text.isBlankText bad.text = false ∧
          Sdl.readDocument bad.text = .error fault ∧
          (tree.load start text).outcome = .error ⟨bad, fault⟩ ∧
          (tree.load start text).currentFile = bad.name ∧
          (tree.load start text).printed =
            "Error parsing " ++ bad.name ++ ": " ++ fault.report bad.text ++ "\n") := by
  have files : tree.schemaFiles start text = tree.schemaFilesUnder folder := by
    rw [FileTree.schemaFiles, located]
    simp only [noFile]
  rw [FileTree.load, files]
  refine ⟨tree.exists_enumerates folder, ?_, _, listing_schemaFilesUnder proper folder,
    fun readable => ?_, fun broken => ?_⟩
  · intro found enumerated
    rw [collect_enumerated enumerated proper noFile]
  · rw [loadFiles_readable readable]
    exact ⟨rfl, rfl, rfl⟩
  · obtain ⟨before, bad, after, split, fine, unreadable⟩ := exists_first_unreadable broken
    obtain ⟨filled, fault, read⟩ := not_readable_iff.mp unreadable
    refine ⟨before, bad, after, fault, split, fine, filled, read, ?_⟩
    rw [split, loadFiles_unreadable fine filled read]
    exact ⟨rfl, rfl, rfl⟩

/-- Two files that cannot be read. The folder of the one comes before that of the other, but its
path text comes after, since a hyphen comes before a slash. -/
def forkedTree : FileTree where
  files := [(["a", "x.gql"], "type \x7b"), (["c.gql"], " \n"), (["a-b", "y.gql"], "scalar ?"),
    (["notes.txt"], "?")]
  folders := [["empty"]]

/-- The subfolders with what is found in them. -/
def forkedFolders : List (Path × List (Path × String)) :=
  [(["a"], [(["a", "x.gql"], "type \x7b")]), (["a-b"], [(["a-b", "y.gql"], "scalar ?")]),
    (["empty"], [])]

def forkedFound : List (Path × String) :=
  [(["notes.txt"], "?"), (["c.gql"], " \n")] ++ forkedFolders.flatMap Prod.snd

theorem enumerates_forkedTree : forkedTree.Enumerates [] forkedFound := by
  have leaf : ∀ entry ∈ forkedFolders, forkedTree.Enumerates entry.1 entry.2 := by
    intro entry listed
    have own : entry.2.Perm (forkedTree.files.filter fun file => isEntry entry.1 file.1) := by
      revert entry
      decide +kernel
    have flat : forkedTree.subfolders entry.1 = [] := by
      revert entry
      decide +kernel
    have folders (path : Path) : path ∈ ([] : List Path) ↔
        isEntry entry.1 path = true ∧ forkedTree.isFolder path = true := by
      rw [← FileTree.mem_subfolders, flat]
    have alone := @FileTree.Enumerates.folder forkedTree entry.1 entry.2 [] own List.nodup_nil
      folders (by simp)
    rwa [List.flatMap_nil, List.append_nil] at alone
  have listed : (forkedFolders.map Prod.fst).Perm (forkedTree.subfolders []) := by decide +kernel
  have folders (path : Path) : path ∈ forkedFolders.map Prod.fst ↔
      isEntry [] path = true ∧ forkedTree.isFolder path = true :=
    listed.mem_iff.trans FileTree.mem_subfolders
  exact .folder (by decide +kernel) (by decide) folders leaf

def forkedReport : SourceFile := ⟨["a-b", "y.gql"], "scalar ?"⟩

theorem load_forkedTree :
    forkedTree.Proper ∧ forkedTree.Enumerates [] forkedFound ∧
      loadFiles "" (collect forkedFound) = forkedTree.load [] "" ∧
      (∃ fault, (forkedTree.load [] "").outcome = .error ⟨forkedReport, fault⟩) ∧
      (forkedTree.load [] "").currentFile = "y.gql" := by
  have proper : forkedTree.Proper := ⟨by decide +kernel, by decide +kernel⟩
  have located : forkedTree.locate [] "" = some [] := by decide +kernel
  obtain ⟨_, same, files, listing, _, broken⟩ :=
    load_folder proper located (by decide +kernel)
  have unreadable : ¬ forkedReport.Readable := by
    intro readable
    obtain ⟨document, read⟩ := readable (by decide +kernel)
    have unread : (Sdl.readDocument forkedReport.text).toOption = none := by decide +kernel
    rw [read] at unread
    cases unread
  have listed : forkedReport ∈ files :=
    (listing.complete forkedReport).mpr
      ⟨List.nil_prefix, by decide +kernel, "scalar ?", by decide +kernel, by decide +kernel⟩
  obtain ⟨before, bad, after, fault, split, fine, filled, read, outcome, current, _⟩ :=
    broken ⟨forkedReport, listed, unreadable⟩
  have first : bad = forkedReport := by
    have kept := listed
    rw [split, List.mem_append, List.mem_cons] at kept
    rcases kept with early | rfl | late
    · exact absurd (fine _ early) unreadable
    · rfl
    · -- No other file that is neither blank nor something else comes before it.
      have others : ∀ file ∈ forkedTree.files, isSchemaFile file.1 = true →
          Text.isBlankText (readText file.2) = false →
            ¬ Path.text file.1 < Path.text forkedReport.path := by decide +kernel
      obtain ⟨_, schema, content, known, text⟩ := (listing.complete bad).mp (by simp [split])
      have sorted := (List.pairwise_append.mp (split ▸ listing.sorted)).2.1
      exact absurd ((List.pairwise_cons.mp sorted).1 _ late)
        (others _ known schema (text ▸ filled))
  subst first
  exact ⟨proper, enumerates_forkedTree, same _ enumerates_forkedTree, ⟨fault, outcome⟩, current⟩

end Folders

end SchemaClasses.Files
