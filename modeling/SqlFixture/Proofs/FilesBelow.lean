import SqlFixture.Proofs.Wildcards

/-
**Files below a directory.**

A search goes through the files below the directory that the root of a pattern leads to. They come
in the order of their paths, name by name, and how they are told keeps this order.

* `FileTree.FullyNamed`: names that are told as parts of a path;
* `FileTree.mem_filesBelow_iff`, `pairwise_filesBelow`: the files below a directory;
* `Discovery.mem_search_iff`: the files that are found among them;
* `Discovery.lead`, `parts_shown`: the parts of what is told;
* `Discovery.pairwise_search`: the order of what is found.
-/

namespace SqlFixture

open Glob (Piece)

/-! ### Parts of paths -/

theorem Path.parts_append_text (text rest : String) :
    parts (text ++ "/" ++ rest) = parts text ++ parts rest := by
  have together := parts_append text.toList rest.toList
  rw [String.ofList_toList, String.ofList_toList] at together
  rw [← together, ← String.ofList_toList (s := text ++ "/" ++ rest), String.toList_append,
    String.toList_append, List.append_assoc]
  rfl

/-- The last part of a text that ends with a slash is empty. -/
theorem Path.exists_parts_of_slash {text : String} (slash : text.toList.getLast? = some '/') :
    ∃ front, text = front ++ "/" ∧ parts text = parts front ++ [""] := by
  obtain ⟨front, same⟩ := List.getLast?_eq_some_iff.mp slash
  obtain rfl : text = String.ofList front ++ "/" := by
    rw [← String.ofList_toList (s := text), same, String.ofList_append]
  refine ⟨_, rfl, ?_⟩
  have parts_eq := parts_append_text (String.ofList front) ""
  rw [String.append_empty] at parts_eq
  exact parts_eq

/-- Paths from a directory are in the order of the whole paths. -/
theorem Path.lt_of_append_lt {directory first second : Path}
    (less : directory ++ first < directory ++ second) : first < second := by
  induction directory with
  | nil => exact less
  | cons name directory ih =>
    rcases List.cons_lt_cons_iff.mp less with same | ⟨_, less⟩
    · exact absurd same (String.lt_irrefl name)
    · exact ih less

/-! ### Files in order -/

namespace FileTree

/-- Every name on the way to a file is a text without a slash, and not the empty one. -/
def FullyNamed (tree : FileTree) : Prop :=
  ∀ path ∈ tree.files.keys, ∀ name ∈ path, name ≠ "" ∧ Path.IsName name

variable {tree : FileTree} {directory path : Path}

theorem FullyNamed.wellNamed (named : tree.FullyNamed) : tree.WellNamed :=
  fun path member name among => (named path member name among).2

theorem mem_filesBelow_iff {content : Bytes} :
    (path, content) ∈ tree.filesBelow directory ↔
      path ≠ [] ∧ tree.files.find? (directory ++ path) = some content := by
  rw [filesBelow, List.mem_filterMap, Dictionary.find?_eq_some_iff]
  constructor
  · rintro ⟨⟨whole, content⟩, member, found⟩
    obtain ⟨rest, below, same⟩ := Option.map_eq_some_iff.mp found
    obtain ⟨rfl, some_left⟩ := Path.below?_eq_some_iff.mp below
    cases same
    exact ⟨some_left, member⟩
  · rintro ⟨some_left, member⟩
    refine ⟨(directory ++ path, content), member, ?_⟩
    rw [Path.below?_eq_some_iff.mpr ⟨rfl, some_left⟩]
    rfl

theorem pairwise_filesBelow (tree : FileTree) (directory : Path) :
    (tree.filesBelow directory).Pairwise fun first second => first.1 < second.1 := by
  refine tree.files.sorted.filterMap _ fun entry other less file here file' there => ?_
  obtain ⟨first, below, rfl⟩ := Option.map_eq_some_iff.mp here
  obtain ⟨second, belowToo, rfl⟩ := Option.map_eq_some_iff.mp there
  rw [(Path.below?_eq_some_iff.mp below).1, (Path.below?_eq_some_iff.mp belowToo).1] at less
  exact Path.lt_of_append_lt less

theorem key_of_find? {whole : Path} {content : Bytes}
    (found : tree.files.find? whole = some content) : whole ∈ tree.files.keys :=
  List.mem_map_of_mem (Dictionary.find?_eq_some_iff.mp found)

theorem WellNamed.isName (named : tree.WellNamed) {content : Bytes}
    (below : tree.files.find? (directory ++ path) = some content) :
    ∀ name ∈ path, Path.IsName name :=
  fun name among => named _ (key_of_find? below) name (List.mem_append_right _ among)

theorem FullyNamed.names (named : tree.FullyNamed) {content : Bytes}
    (below : tree.files.find? (directory ++ path) = some content) :
    Glob.AreNames (path.map String.toList) := by
  intro characters member
  obtain ⟨name, among, rfl⟩ := List.mem_map.mp member
  obtain ⟨some_name, inside⟩ := named _ (key_of_find? below) name (List.mem_append_right _ among)
  exact ⟨fun nothing => some_name (String.toList_eq_nil_iff.mp nothing), inside⟩

end FileTree

/-! ### Found files in order -/

namespace Discovery

variable {tree : FileTree} {root : String} {directory : Path} {components : List String}
  {pieces : List Piece}

theorem mem_search_iff {file : FoundFile} :
    file ∈ search tree root directory components pieces ↔
      ∃ path : Path, path ≠ [] ∧ tree.files.find? (directory ++ path) = some file.content ∧
        file.path = shown root path ∧ withinDepth components path = true ∧
        Glob.accepts pieces path.joined.toList = true := by
  simp only [search, List.mem_map, List.mem_filter, Bool.and_eq_true, Glob.matchesText_eq_accepts]
  constructor
  · rintro ⟨⟨path, content⟩, ⟨below, depth, matched⟩, rfl⟩
    obtain ⟨some_name, found⟩ := FileTree.mem_filesBelow_iff.mp below
    exact ⟨path, some_name, found, rfl, depth, matched⟩
  · rintro ⟨path, some_name, found, told, depth, matched⟩
    refine ⟨(path, file.content), ⟨FileTree.mem_filesBelow_iff.mpr ⟨some_name, found⟩, depth,
      matched⟩, ?_⟩
    rw [← told]

/-- The parts of what is told in front of a path. -/
def lead (root : String) : List String :=
  if isHere root then []
  else if root.toList.getLast? = some '/' then (Path.parts root).dropLast
  else Path.parts root

theorem parts_shown (root : String) {path : Path} (some_name : path ≠ [])
    (names : ∀ name ∈ path, Path.IsName name) :
    Path.parts (shown root path) = lead root ++ path := by
  unfold shown lead
  split
  · exact Path.parts_joined names some_name
  · split
    next slash =>
      obtain ⟨front, rfl, parts_root⟩ := Path.exists_parts_of_slash slash
      rw [parts_root, List.dropLast_concat, Path.parts_append_text,
        Path.parts_joined names some_name]
    next => rw [Path.parts_append_text, Path.parts_joined names some_name]

/-- **Files are found in the order of their paths.** -/
theorem pairwise_search (named : tree.WellNamed) (root : String) (directory : Path)
    (components : List String) (pieces : List Piece) :
    ((search tree root directory components pieces).map fun file =>
      Path.parts file.path).Pairwise (· < ·) := by
  have sorted := (tree.pairwise_filesBelow directory).filter fun file =>
    withinDepth components file.1 && Glob.matchesText pieces file.1.joined
  rw [search, List.map_map, List.pairwise_map]
  refine sorted.imp_of_mem fun {first second} among amongToo less => ?_
  obtain ⟨some_name, names⟩ := FileTree.names_of_mem_filesBelow named (List.mem_of_mem_filter among)
  obtain ⟨some_other, others⟩ :=
    FileTree.names_of_mem_filesBelow named (List.mem_of_mem_filter amongToo)
  rw [Function.comp_apply, Function.comp_apply, parts_shown root some_name names,
    parts_shown root some_other others]
  exact List.append_left_lt less

end Discovery

end SqlFixture
