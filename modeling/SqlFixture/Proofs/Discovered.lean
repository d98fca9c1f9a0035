import Mathlib.Data.List.Nodup
import SqlFixture.Discovery
import SqlFixture.Proofs.Directives

/-
**Found files are told apart by their paths.**

A path is read back from how it is told, as long as no name holds a slash. So a pattern finds no
two files that are told alike.

* `FileTree.WellNamed`: no name holds a slash;
* `Path.joined_inj`, `Discovery.shown_inj`: different paths are told differently;
* `FileTree.nodup_filesBelow`, `nodup_discover`: no file is found twice.
-/

namespace SqlFixture

/-! ### How paths are told -/

namespace Path

/-- A name can stand between slashes. -/
def IsName (name : String) : Prop := '/' ∉ name.toList

/-- The names of a path are read back from its text. -/
theorem parts_joined {path : Path} (names : ∀ name ∈ path, IsName name) (some_name : path ≠ []) :
    parts path.joined = path := by
  have characters : (path.joined).toList = ['/'].intercalate (path.map String.toList) :=
    String.toList_intercalate
  have split : (['/'].intercalate (path.map String.toList)).splitOn '/' =
      path.map String.toList := by
    refine List.splitOn_intercalate '/' (fun characters member => ?_) ?_
    · obtain ⟨name, among, rfl⟩ := List.mem_map.mp member
      exact names name among
    · exact fun nothing => some_name (List.map_eq_nil_iff.mp nothing)
  rw [parts, characters, split, List.map_map]
  exact (List.map_congr_left fun name _ => String.ofList_toList).trans (List.map_id path)

theorem joined_inj {first second : Path} (names : ∀ name ∈ first, IsName name)
    (others : ∀ name ∈ second, IsName name) (some_name : first ≠ []) (some_other : second ≠ [])
    (same : first.joined = second.joined) : first = second := by
  rw [← parts_joined names some_name, same, parts_joined others some_other]

end Path

theorem Discovery.joined_eq_of_shown_eq {root : String} {first second : Path}
    (same : shown root first = shown root second) : first.joined = second.joined := by
  unfold shown at same
  split at same
  · exact same
  · split at same
    · exact String.append_right_inj root |>.mp same
    · exact String.append_right_inj (root ++ "/") |>.mp same

/-! ### The files that are found -/

namespace FileTree

/-- No file is told with a slash inside a name. -/
def WellNamed (tree : FileTree) : Prop :=
  ∀ path ∈ tree.files.keys, ∀ name ∈ path, Path.IsName name

variable {tree : FileTree} {directory : Path}

/-- A file below a directory is told with some names, which are names of a path of the tree. -/
theorem names_of_mem_filesBelow (named : tree.WellNamed) {file : Path × Bytes}
    (below : file ∈ tree.filesBelow directory) :
    file.1 ≠ [] ∧ ∀ name ∈ file.1, Path.IsName name := by
  obtain ⟨entry, member, found⟩ := List.mem_filterMap.mp below
  obtain ⟨rest, leads, rfl⟩ := Option.map_eq_some_iff.mp found
  obtain ⟨path, some_left⟩ := Path.below?_eq_some_iff.mp leads
  refine ⟨some_left, fun name among => ?_⟩
  refine named entry.1 (List.mem_map_of_mem member) name ?_
  rw [path]
  exact List.mem_append_right _ among

theorem nodup_filesBelow (tree : FileTree) (directory : Path) :
    ((tree.filesBelow directory).map Prod.fst).Nodup := by
  have paths : (tree.filesBelow directory).map Prod.fst =
      tree.files.keys.filterMap (Path.below? directory) := by
    rw [filesBelow, List.map_filterMap, Dictionary.keys, List.filterMap_map]
    refine List.filterMap_congr fun entry _ => ?_
    rw [Option.map_map]
    exact Option.map_id'
  rw [paths]
  refine tree.files.nodup_keys.filterMap fun first second rest below other => ?_
  obtain ⟨rfl, _⟩ := Path.below?_eq_some_iff.mp below
  obtain ⟨rfl, _⟩ := Path.below?_eq_some_iff.mp other
  rfl

end FileTree

theorem Discovery.nodup_search {tree : FileTree} (named : tree.WellNamed) (root : String)
    (directory : Path) (components : List String) (pieces : List Glob.Piece) :
    ((search tree root directory components pieces).map FoundFile.path).Nodup := by
  have paths : (search tree root directory components pieces).map FoundFile.path =
      (((tree.filesBelow directory).filter fun file =>
        withinDepth components file.1 && Glob.matchesText pieces file.1.joined).map
          Prod.fst).map (shown root) := by
    rw [search, List.map_map, List.map_map]
    rfl
  rw [paths]
  have nodup := (tree.nodup_filesBelow directory).sublist
    ((List.filter_sublist (p := fun file =>
      withinDepth components file.1 && Glob.matchesText pieces file.1.joined)).map Prod.fst)
  refine nodup.map_on fun first among second amongToo same => ?_
  obtain ⟨file, member, rfl⟩ := List.mem_map.mp among
  obtain ⟨other, memberToo, rfl⟩ := List.mem_map.mp amongToo
  obtain ⟨some_name, names⟩ :=
    FileTree.names_of_mem_filesBelow named (List.mem_of_mem_filter member)
  obtain ⟨some_other, others⟩ :=
    FileTree.names_of_mem_filesBelow named (List.mem_of_mem_filter memberToo)
  exact Path.joined_inj names others some_name some_other (joined_eq_of_shown_eq same)

/-- What a pattern finds: the file that it names, or files below its root. -/
theorem cases_of_discover {tree : FileTree} {pattern : String} {files : List FoundFile}
    (found : discover tree pattern = .ok files) :
    (∃ text, Glob.Pattern.parse pattern = .path text ∧
      files = (tree.read? text).toList.map fun content => ⟨text, content⟩) ∨
    ∃ root components, Glob.Pattern.parse pattern = .search root components ∧
      (tree.directory? root = none ∧ files = [] ∨
        ∃ directory pieces, tree.directory? root = some directory ∧
          files = Discovery.search tree root directory components pieces) := by
  unfold discover at found
  cases parsed : Glob.Pattern.parse pattern with
  | path text =>
    rw [parsed] at found
    exact .inl ⟨text, rfl, (Except.ok.inj found).symm⟩
  | search root components =>
    simp only [parsed] at found
    refine .inr ⟨root, components, rfl, ?_⟩
    cases here : tree.directory? root with
    | none =>
      rw [here] at found
      exact .inl ⟨rfl, (Except.ok.inj found).symm⟩
    | some directory =>
      simp only [here, Directive.bind_eq_ok_iff] at found
      obtain ⟨_, _, pieces, _, same⟩ := found
      exact .inr ⟨directory, pieces, rfl, (Except.ok.inj same).symm⟩

/-- **No two found files are told alike.** -/
theorem nodup_discover {tree : FileTree} (named : tree.WellNamed) {pattern : String}
    {files : List FoundFile} (found : discover tree pattern = .ok files) :
    (files.map FoundFile.path).Nodup := by
  rcases cases_of_discover found with ⟨text, _, rfl⟩ | ⟨root, components, _, ⟨_, rfl⟩ | below⟩
  · cases tree.read? text with
    | none => exact .nil
    | some content => exact List.nodup_singleton text
  · exact .nil
  · obtain ⟨directory, pieces, _, rfl⟩ := below
    exact Discovery.nodup_search named root directory components pieces

end SqlFixture
