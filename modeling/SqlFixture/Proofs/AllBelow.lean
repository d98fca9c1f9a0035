import SqlFixture.Proofs.Finding

/-
**All files below a directory.**

A double asterisk at the end of a pattern stands for any run of characters other than the newline,
slashes included. So behind a directory it finds the files at every depth, but none with a newline
on its way, although every other wildcard takes newlines. All other patterns behind the directory
find files below it too, unless a double dot in front of the wildcards leads out of it.

* `FoundFile.StandsAt`: a found file with its place;
* `Pattern.literal_append`, `Pattern.root_append`: a pattern behind a directory;
* `exists_standsAt_of_mem`: where the files of such a pattern stand;
* `mem_allBelow_iff`: the files that the double asterisk finds;
* `discover_all_below`: what it finds, and what all other patterns find.
-/

namespace SqlFixture

open Glob (Pattern Piece hasWildcard)

/-! ### A pattern behind a directory -/

namespace Glob.Pattern

variable {pattern text rest : String}

theorem parse_eq_path (none_wild : wild pattern = []) : parse pattern = .path pattern := by
  have whole : literal pattern = Path.parts pattern := by
    rw [← literal_append_wild, none_wild, List.append_nil]
  exact if_pos (congrArg List.length whole)

theorem hasWildcard_of_mem_parts (plain : hasWildcard text = false) {part : String}
    (member : part ∈ Path.parts text) : hasWildcard part = false := by
  refine List.any_eq_false.mpr fun character inside => ?_
  exact List.any_eq_false.mp plain character (Path.exists_mem_parts_iff.mp ⟨part, member, inside⟩).1

theorem literal_append (plain : hasWildcard text = false) (rest : String) :
    literal (text ++ "/" ++ rest) = Path.parts text ++ literal rest := by
  rw [literal, Path.parts_append_text]
  refine List.takeWhile_append_of_pos fun part member => ?_
  rw [hasWildcard_of_mem_parts plain member]
  rfl

theorem wild_append (plain : hasWildcard text = false) (rest : String) :
    wild (text ++ "/" ++ rest) = wild rest := by
  rw [wild, Path.parts_append_text]
  refine List.dropWhile_append_of_pos fun part member => ?_
  rw [hasWildcard_of_mem_parts plain member]
  rfl

/-- The parts before the wildcards are read back from the text that they make up. -/
theorem parts_joined_append (text rest : String) :
    Path.parts (Path.joined (Path.parts text ++ literal rest)) =
      Path.parts text ++ literal rest := by
  refine Path.parts_joined (fun name member => ?_)
    (List.append_ne_nil_of_left_ne_nil (Path.parts_ne_nil text) _)
  rcases List.mem_append.mp member with among | among
  · exact Path.isName_of_mem_parts among
  · exact Path.isName_of_mem_parts ((List.takeWhile_sublist _).mem among)

/-- The root behind a directory is the directory and the parts before the wildcards. -/
theorem root_append (plain : hasWildcard text = false) (more : Path.parts text ≠ [""])
    (rest : String) :
    root (text ++ "/" ++ rest) = Path.joined (Path.parts text ++ literal rest) := by
  have some_text : (Path.joined (Path.parts text ++ literal rest)).isEmpty = false := by
    rw [← Bool.not_eq_true, String.isEmpty_iff]
    intro nothing
    have parts_eq := parts_joined_append text rest
    rw [nothing] at parts_eq
    rcases List.append_eq_singleton_iff.mp parts_eq.symm with ⟨empty, _⟩ | ⟨single, _⟩
    · exact Path.parts_ne_nil text empty
    · exact more single
  rw [root, literal_append plain, rootText]
  simp only [some_text, Bool.false_eq_true, if_false]

end Glob.Pattern

/-! ### Where the files of such a pattern stand -/

variable {tree : FileTree} {text : String} {directory : Path}

/-- **How a file behind a directory is told leads to it from there**: first along the parts before
the wildcards, then along names. -/
theorem exists_standsAt_of_mem (sound : tree.IsSound)
    (leads : tree.directory? text = some directory) (plain : hasWildcard text = false)
    {rest : String} {files : List FoundFile}
    (found : discover tree (text ++ "/" ++ rest) = .ok files) {file : FoundFile}
    (member : file ∈ files) :
    ∃ here path, (Pattern.literal rest).foldlM tree.step? directory = some here ∧
      file.StandsAt tree (here ++ path) := by
  have more := FileTree.parts_ne_of_directory? leads
  by_cases none_wild : Pattern.wild rest = []
  · have whole : Pattern.literal rest = Path.parts rest := by
      rw [← Pattern.literal_append_wild, none_wild, List.append_nil]
    rw [discover, Pattern.parse_eq_path ((Pattern.wild_append plain rest).trans none_wild)] at found
    cases found
    obtain ⟨content, read, rfl⟩ := List.mem_map.mp member
    obtain ⟨place, resolved, here⟩ := Option.bind_eq_some_iff.mp (Option.mem_toList.mp read)
    refine ⟨place, [], ?_, ?_⟩
    · rw [whole, ← FileTree.follow?_parts_append leads, ← Path.parts_append_text]
      exact resolved
    · rw [List.append_nil]
      exact ⟨resolved, here⟩
  · have some_wild : Pattern.wild (text ++ "/" ++ rest) ≠ [] := by
      rwa [Pattern.wild_append plain]
    cases here : tree.directory? (Pattern.root (text ++ "/" ++ rest)) with
    | none =>
      obtain rfl := Except.ok.inj (found.symm.trans (discover_of_no_directory some_wild here))
      cases member
    | some place =>
      obtain ⟨_, pieces, _, _, rfl⟩ := exists_search_of_discover some_wild here found
      obtain ⟨path, some_name, below, told, _⟩ := Discovery.mem_search_iff.mp member
      refine ⟨place, path, ?_, ?_, below⟩
      · have followed := (FileTree.directory?_eq_some_iff.mp here).1
        rwa [Pattern.root_append plain more, Pattern.parts_joined_append,
          FileTree.follow?_parts_append leads] at followed
      · rw [told, Discovery.resolve?_shown sound here some_name below]

/-! ### The double asterisk at the end -/

theorem discover_allBelow (leads : tree.directory? text = some directory)
    (plain : hasWildcard text = false) :
    discover tree (text ++ "/**") =
      .ok (Discovery.search tree text directory ["**"] [.anyLine]) := by
  have behind : text ++ "/**" = text ++ "/" ++ "**" := by
    rw [String.append_assoc]
    rfl
  have wild : Pattern.wild (text ++ "/**") = ["**"] := by
    rw [behind, Pattern.wild_append plain]
    decide
  have root : Pattern.root (text ++ "/**") = text := by
    have none_literal : Pattern.literal "**" = [] := by decide
    rw [behind, Pattern.root_append plain (FileTree.parts_ne_of_directory? leads), none_literal,
      List.append_nil, Path.joined_parts]
  have some_wild : Pattern.wild (text ++ "/**") ≠ [] := by
    rw [wild]
    exact List.cons_ne_nil _ _
  have searched := discover_of_wild some_wild (root.symm ▸ leads)
  rw [wild, root] at searched
  exact searched

/-- Whether a path is told in one line: no name has a newline. -/
def Path.IsLine (path : Path) : Prop := ∀ name ∈ path, '\n' ∉ name.toList

theorem Path.isLine_iff {path : Path} (some_name : path ≠ []) (names : ∀ name ∈ path, IsName name) :
    path.IsLine ↔ '\n' ∉ path.joined.toList := by
  have inside : (∃ part ∈ parts path.joined, '\n' ∈ part.toList) ↔
      '\n' ∈ path.joined.toList ∧ '\n' ≠ '/' := exists_mem_parts_iff
  rw [parts_joined names some_name, and_iff_left (by decide)] at inside
  rw [← inside, IsLine]
  simp only [not_exists, not_and]

theorem Glob.accepts_anyLine_iff {characters : List Char} :
    accepts [.anyLine] characters = true ↔ '\n' ∉ characters := by
  rw [accepts_cons_iff]
  constructor
  · rintro ⟨front, back, takes, nothing, rfl⟩
    rw [accepts_nil_iff.mp nothing, List.append_nil]
    exact takes
  · exact fun line => ⟨characters, [], line, rfl, (List.append_nil _).symm⟩

/-- **A double asterisk at the end finds the files without a newline on their way.** -/
theorem mem_allBelow_iff (named : tree.WellNamed) {file : FoundFile} :
    file ∈ Discovery.search tree text directory ["**"] [.anyLine] ↔
      ∃ path : Path, path ≠ [] ∧ path.IsLine ∧
        tree.files.find? (directory ++ path) = some file.content ∧
        file.path = Discovery.shown text path := by
  rw [Discovery.mem_search_iff]
  refine exists_congr fun path => and_congr_right fun some_name => ?_
  constructor
  · rintro ⟨below, told, _, line⟩
    refine ⟨?_, below, told⟩
    rw [Path.isLine_iff some_name (named.isName below)]
    exact Glob.accepts_anyLine_iff.mp line
  · rintro ⟨line, below, told⟩
    refine ⟨below, told, rfl, Glob.accepts_anyLine_iff.mpr ?_⟩
    rwa [← Path.isLine_iff some_name (named.isName below)]

/-- **A double asterisk behind a directory finds all files below it that have no newline on their
way**, in strictly increasing order, and each is told by a path that leads to it. So it finds
whatever else another pattern behind the directory finds below it; and below it is all that such a
pattern finds, unless it has a double dot in front of its wildcards. -/
theorem discover_all_below (sound : tree.IsSound) (leads : tree.directory? text = some directory)
    (plain : hasWildcard text = false) :
    ∃ files, discover tree (text ++ "/**") = .ok files ∧
      (files.map fun file => Path.parts file.path).Pairwise (· < ·) ∧
      (∀ file, file ∈ files ↔ ∃ path : Path, path ≠ [] ∧ path.IsLine ∧
        tree.files.find? (directory ++ path) = some file.content ∧
        file.path = Discovery.shown text path) ∧
      (∀ file ∈ files, ∃ path : Path, file.StandsAt tree (directory ++ path)) ∧
      ∀ rest others, discover tree (text ++ "/" ++ rest) = .ok others → ∀ other ∈ others,
        ∃ place, other.StandsAt tree place ∧
          (".." ∉ Pattern.literal rest → ∃ path : Path, path ≠ [] ∧ place = directory ++ path) ∧
          ∀ path : Path, place = directory ++ path → path.IsLine →
            ∃ file ∈ files, file.StandsAt tree place := by
  have named := sound.fullyNamed.wellNamed
  have isDirectory := (FileTree.directory?_eq_some_iff.mp leads).2
  refine ⟨_, discover_allBelow leads plain, Discovery.pairwise_search named .., fun file =>
    mem_allBelow_iff named, fun file member => ?_, fun rest others found other member => ?_⟩
  · obtain ⟨path, some_name, _, below, told⟩ := (mem_allBelow_iff named).mp member
    exact ⟨path, told ▸ Discovery.resolve?_shown sound leads some_name below, below⟩
  · obtain ⟨here, path, followed, stands⟩ := exists_standsAt_of_mem sound leads plain found member
    have some_below {below : Path} (same : here ++ path = directory ++ below) : below ≠ [] := by
      rintro rfl
      rw [List.append_nil] at same
      have apart := sound.apart _ (FileTree.key_of_find? stands.2)
      rw [same, isDirectory] at apart
      cases apart
    refine ⟨_, stands, fun down => ?_, fun below same line => ?_⟩
    · obtain ⟨front, rfl⟩ := FileTree.exists_below_of_foldlM down followed
      have same := List.append_assoc directory front path
      exact ⟨front ++ path, some_below same, same⟩
    · obtain ⟨_, found⟩ := stands
      rw [same] at found ⊢
      refine ⟨⟨Discovery.shown text below, other.content⟩, ?_, ?_, found⟩
      · exact (mem_allBelow_iff named).mpr ⟨below, some_below same, line, found, rfl⟩
      · exact Discovery.resolve?_shown sound leads (some_below same) found

/-- Files at two depths, and a newline on the way to a third one. -/
theorem discover_all_below_of_two_depths :
    let tree : FileTree := ⟨.ofList [(["d", "a"], asciiBytes "SELECT 1"),
      (["d", "x", "b.sql"], asciiBytes "SELECT 2"), (["d", "x\ny", "c"], asciiBytes "SELECT 3")],
      [], []⟩
    tree.IsSound ∧ tree.directory? "d" = some ["d"] ∧ hasWildcard "d" = false ∧
    discover tree "d/**" =
      .ok [⟨"d/a", asciiBytes "SELECT 1"⟩, ⟨"d/x/b.sql", asciiBytes "SELECT 2"⟩] ∧
    discover tree "d/x/*.sql" = .ok [⟨"d/x/b.sql", asciiBytes "SELECT 2"⟩] ∧
    ∃ files, discover tree "d/**" = .ok files ∧
      ∃ file ∈ files, file.StandsAt tree ["d", "x", "b.sql"] := by
  intro tree
  have sound : tree.IsSound := by
    constructor
    · unfold Path.IsName
      decide +kernel
    · decide +kernel
  have leads : tree.directory? "d" = some ["d"] := by decide +kernel
  have found : discover tree "d/x/*.sql" = .ok [⟨"d/x/b.sql", asciiBytes "SELECT 2"⟩] := by
    decide +kernel
  refine ⟨sound, leads, by decide, by decide +kernel, found, ?_⟩
  obtain ⟨files, below, _, _, _, others⟩ := discover_all_below sound leads (by decide)
  obtain ⟨place, stands, _, contained⟩ := others "x/*.sql" _ found _ List.mem_cons_self
  obtain rfl : place = ["d", "x", "b.sql"] := by
    have resolved : tree.resolve? "d/x/b.sql" = some ["d", "x", "b.sql"] := by decide +kernel
    exact Option.some.inj (stands.1.symm.trans resolved)
  have line : Path.IsLine ["x", "b.sql"] := by
    unfold Path.IsLine
    decide
  exact ⟨files, below, contained ["x", "b.sql"] rfl line⟩

/-- **A newline in a name hides a file from the double asterisk at the end**, although the single
asterisk finds it, and so it does behind a double one. -/
theorem allBelow_misses_newline :
    let tree : FileTree := ⟨.ofList [(["d", "a\nb"], asciiBytes "SELECT 1")], [], []⟩
    tree.IsSound ∧ tree.directory? "d" = some ["d"] ∧ hasWildcard "d" = false ∧
    tree.files.find? ["d", "a\nb"] = some (asciiBytes "SELECT 1") ∧
    discover tree "d/**" = .ok [] ∧
    discover tree "d/*" = .ok [⟨"d/a\nb", asciiBytes "SELECT 1"⟩] ∧
    discover tree "d/**/*" = .ok [⟨"d/a\nb", asciiBytes "SELECT 1"⟩] := by
  intro tree
  refine ⟨⟨?_, by decide +kernel⟩, by decide +kernel, by decide, by decide +kernel,
    by decide +kernel, by decide +kernel, by decide +kernel⟩
  unfold Path.IsName
  decide +kernel

end SqlFixture
