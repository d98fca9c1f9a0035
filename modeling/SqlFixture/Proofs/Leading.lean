import SqlFixture.Proofs.FilesBelow

/-
**Where a written path leads.**

A written path is followed one part at a time. So what is written behind the path of a directory is
followed from there, and leads below it unless it has a double dot. How a found file is told leads
back to the file, as long as no name means something else in a path.

* `FileTree.IsSound`: files have proper names and are no directories;
* `FileTree.follow?_append`: what stands behind the parts of a directory;
* `FileTree.foldlM_step?_of_file`: a file below a directory is reached along its names;
* `Discovery.resolve?_shown`: how a file is told leads to it;
* `FoundFile.StandsAt`: a found file with its place.
-/

namespace SqlFixture

/-! ### Parts that are put together again -/

namespace Path

theorem parts_ne_nil (text : String) : parts text ≠ [] :=
  fun nothing => List.splitOn_ne_nil '/' text.toList (List.map_eq_nil_iff.mp nothing)

theorem isName_of_mem_parts {text name : String} (member : name ∈ parts text) : IsName name :=
  fun slash => (exists_mem_parts_iff.mp ⟨name, member, slash⟩).2 rfl

/-- Parts put together with slashes are the text. -/
theorem joined_parts (text : String) : joined (parts text) = text := by
  have characters : (joined (parts text)).toList =
      ['/'].intercalate ((parts text).map String.toList) := String.toList_intercalate
  have kept : (parts text).map String.toList = text.toList.splitOn '/' := by
    rw [parts, List.map_map]
    exact (List.map_congr_left fun part _ => String.toList_ofList).trans (List.map_id _)
  rw [kept, List.intercalate_splitOn] at characters
  exact String.toList_inj.mp characters

/-- The first part is not empty, unless the text is or begins with a slash. -/
theorem ne_empty_of_relative {text first : String} {names : List String}
    (divided : parts text = first :: names) (more : parts text ≠ [""])
    (relative : text.toList.head? ≠ some '/') : first ≠ "" := by
  rintro rfl
  have some_name : names ≠ [] := by
    rintro rfl
    exact more divided
  have characters : (joined ("" :: names)).toList = '/' :: (joined names).toList :=
    joined_cons some_name
  rw [← divided, joined_parts] at characters
  exact relative (congrArg List.head? characters)

end Path

/-! ### Following a written path -/

namespace FileTree

/-- The entry that the parts of a written path lead to. -/
def follow? (tree : FileTree) : List String → Option Path
  | [""] => none
  | "" :: names => names.foldlM tree.step? []
  | names => names.foldlM tree.step? tree.workingDirectory

theorem resolve?_eq_follow? (tree : FileTree) (text : String) :
    tree.resolve? text = tree.follow? (Path.parts text) := rfl

variable {tree : FileTree} {directory path here : Path} {names front : List String}

theorem follow?_cons_empty (some_name : names ≠ []) :
    tree.follow? ("" :: names) = names.foldlM tree.step? [] := by
  cases names with
  | nil => exact absurd rfl some_name
  | cons name names => rfl

theorem follow?_cons_of_ne {name : String} (other : name ≠ "") :
    tree.follow? (name :: names) = (name :: names).foldlM tree.step? tree.workingDirectory := by
  unfold follow?
  split
  next same => exact absurd (List.cons.inj same).1 other
  next same => exact absurd (List.cons.inj same).1 other
  next => rfl

/-- **What stands behind parts is followed from where they lead.** -/
theorem follow?_append (some_front : front ≠ []) (more : front ≠ [""]) :
    tree.follow? (front ++ names) = tree.follow? front >>= names.foldlM tree.step? := by
  cases front with
  | nil => exact absurd rfl some_front
  | cons first front =>
    by_cases empty : first = ""
    · subst empty
      have some_name : front ≠ [] := by
        rintro rfl
        exact more rfl
      rw [List.cons_append, follow?_cons_empty some_name, follow?_cons_empty, List.foldlM_append]
      exact List.append_ne_nil_of_left_ne_nil some_name names
    · rw [List.cons_append, follow?_cons_of_ne empty, follow?_cons_of_ne empty, ← List.cons_append,
        List.foldlM_append]

theorem directory?_eq_some_iff {text : String} :
    tree.directory? text = some directory ↔
      tree.follow? (Path.parts text) = some directory ∧ tree.isDirectory directory = true :=
  Option.filter_eq_some_iff

/-- The parts of a directory are more than an empty one. -/
theorem parts_ne_of_directory? {text : String} (leads : tree.directory? text = some directory) :
    Path.parts text ≠ [""] := by
  intro same
  have followed := (directory?_eq_some_iff.mp leads).1
  rw [same] at followed
  cases followed

theorem follow?_parts_append {text : String} (leads : tree.directory? text = some directory) :
    tree.follow? (Path.parts text ++ names) = names.foldlM tree.step? directory := by
  rw [follow?_append (Path.parts_ne_nil text) (parts_ne_of_directory? leads),
    (directory?_eq_some_iff.mp leads).1]
  rfl

/-! ### Steps -/

/-- Empty parts and single dots lead nowhere else. -/
theorem eq_of_foldlM_dots (dots : ∀ name ∈ names, name = "" ∨ name = ".")
    (followed : names.foldlM tree.step? directory = some here) : here = directory := by
  induction names generalizing directory with
  | nil => exact (Option.some.inj followed).symm
  | cons name names ih =>
    obtain ⟨dot, dots⟩ := List.forall_mem_cons.mp dots
    obtain ⟨next, stepped, followed⟩ := Option.bind_eq_some_iff.mp followed
    obtain rfl : directory = next := by
      unfold step? at stepped
      split at stepped
      · cases stepped
      · rw [if_pos (by simpa using dot)] at stepped
        exact Option.some.inj stepped
    exact ih dots followed

/-- A slash behind the parts of a directory leads nowhere else. -/
theorem follow?_append_of_slash (some_front : front ≠ [])
    (followed : tree.follow? (front ++ [""]) = some directory) (some_name : names ≠ []) :
    tree.follow? (front ++ names) = names.foldlM tree.step? directory := by
  by_cases top : front = [""]
  · -- The slash is the whole path, and it is divided into two empty parts.
    subst top
    rw [List.singleton_append, follow?_cons_empty (List.cons_ne_nil _ _)] at followed
    rw [List.singleton_append, follow?_cons_empty some_name,
      eq_of_foldlM_dots (by simp) followed]
  · rw [follow?_append some_front top] at followed ⊢
    obtain ⟨here, reached, followed⟩ := Option.bind_eq_some_iff.mp followed
    rw [reached, eq_of_foldlM_dots (by simp) followed]
    rfl

/-- Names other than a double dot lead to entries below. -/
theorem exists_below_of_foldlM (down : ".." ∉ names)
    (followed : names.foldlM tree.step? directory = some here) :
    ∃ path, here = directory ++ path := by
  induction names generalizing directory with
  | nil =>
    cases followed
    exact ⟨[], (List.append_nil _).symm⟩
  | cons name names ih =>
    obtain ⟨next, stepped, followed⟩ := Option.bind_eq_some_iff.mp followed
    obtain ⟨path, rfl⟩ := ih (List.not_mem_of_not_mem_cons down) followed
    unfold step? at stepped
    split at stepped
    · cases stepped
    · split at stepped
      · cases stepped
        exact ⟨path, rfl⟩
      · rw [if_neg (List.ne_of_not_mem_cons down).symm] at stepped
        dsimp only at stepped
        split at stepped
        · cases stepped
          exact ⟨name :: path, List.append_assoc ..⟩
        · cases stepped

/-- Files have names that mean nothing else in a path, and none is a directory. -/
structure IsSound (tree : FileTree) : Prop where
  named : ∀ path ∈ tree.files.keys, ∀ name ∈ path,
    name ≠ "" ∧ name ≠ "." ∧ name ≠ ".." ∧ Path.IsName name
  apart : ∀ path ∈ tree.files.keys, tree.isDirectory path = false

variable {content : Bytes}

theorem IsSound.fullyNamed (sound : tree.IsSound) : tree.FullyNamed := by
  intro path member name among
  obtain ⟨some_name, _, _, inside⟩ := sound.named path member name among
  exact ⟨some_name, inside⟩

theorem isDirectory_of_find? (found : tree.files.find? (directory ++ path) = some content)
    (some_name : path ≠ []) : tree.isDirectory directory = true := by
  have below : (Path.below? directory (directory ++ path)).isSome = true := by
    rw [Path.below?_eq_some_iff.mpr ⟨rfl, some_name⟩]
    rfl
  unfold isDirectory
  rw [Bool.or_eq_true]
  exact .inr (List.any_eq_true.mpr ⟨_, key_of_find? found, below⟩)

theorem step?_of_name {name : String} (isDirectory : tree.isDirectory directory = true)
    (named : name ≠ "" ∧ name ≠ "." ∧ name ≠ "..")
    (exists_next : tree.isFile (directory ++ [name]) = true ∨
      tree.isDirectory (directory ++ [name]) = true) :
    tree.step? directory name = some (directory ++ [name]) := by
  obtain ⟨some_name, single, double⟩ := named
  simp [step?, isDirectory, some_name, single, double, exists_next]

/-- **A file below a directory is reached along its names.** -/
theorem foldlM_step?_of_file (sound : tree.IsSound)
    (found : tree.files.find? (directory ++ path) = some content) :
    path.foldlM tree.step? directory = some (directory ++ path) := by
  induction path generalizing directory with
  | nil => rw [List.append_nil]; rfl
  | cons name path ih =>
    have found' : tree.files.find? ((directory ++ [name]) ++ path) = some content := by
      rwa [List.append_assoc]
    obtain ⟨some_name, single, double, _⟩ :=
      sound.named _ (key_of_find? found) name (List.mem_append_right _ List.mem_cons_self)
    have next : tree.isFile (directory ++ [name]) = true ∨
        tree.isDirectory (directory ++ [name]) = true := by
      by_cases last : path = []
      · subst last
        rw [isFile, Dictionary.contains, found]
        exact .inl rfl
      · exact .inr (isDirectory_of_find? found' last)
    have stepped := step?_of_name (isDirectory_of_find? found (List.cons_ne_nil _ _))
      ⟨some_name, single, double⟩ next
    rw [List.foldlM_cons, stepped]
    have followed := ih found'
    rw [List.append_assoc] at followed
    exact followed

end FileTree

/-! ### Where found files stand -/

namespace Discovery

variable {tree : FileTree} {root : String} {directory path : Path} {content : Bytes}

/-- The working directory is where a root of single dots leads to. -/
theorem eq_workingDirectory_of_isHere (dots : isHere root = true)
    (leads : tree.directory? root = some directory) : directory = tree.workingDirectory := by
  obtain ⟨relative, dots⟩ := Bool.and_eq_true_iff.mp dots
  obtain ⟨followed, _⟩ := FileTree.directory?_eq_some_iff.mp leads
  obtain ⟨first, names, divided⟩ := List.exists_cons_of_ne_nil (Path.parts_ne_nil root)
  have some_first := Path.ne_empty_of_relative divided (FileTree.parts_ne_of_directory? leads)
    (bne_iff_ne.mp relative)
  rw [divided, FileTree.follow?_cons_of_ne some_first] at followed
  refine FileTree.eq_of_foldlM_dots (fun name member => ?_) followed
  rw [← divided] at member
  simpa using List.all_eq_true.mp dots name member

/-- What stands behind the lead of a root is followed from where the root leads to. -/
theorem follow?_lead_append (leads : tree.directory? root = some directory) (some_name : path ≠ [])
    (named : ∀ name ∈ path, name ≠ "") :
    tree.follow? (lead root ++ path) = path.foldlM tree.step? directory := by
  unfold lead
  split
  next dots =>
    obtain ⟨first, names, rfl⟩ := List.exists_cons_of_ne_nil some_name
    rw [eq_workingDirectory_of_isHere dots leads, List.nil_append,
      FileTree.follow?_cons_of_ne (named first List.mem_cons_self)]
  next =>
    split
    next slash =>
      obtain ⟨front, _, parts_root⟩ := Path.exists_parts_of_slash slash
      have followed := (FileTree.directory?_eq_some_iff.mp leads).1
      rw [parts_root] at followed
      rw [parts_root, List.dropLast_concat]
      exact FileTree.follow?_append_of_slash (Path.parts_ne_nil front) followed some_name
    next => exact FileTree.follow?_parts_append leads

/-- **How a file is told leads to the file.** -/
theorem resolve?_shown (sound : tree.IsSound) (leads : tree.directory? root = some directory)
    (some_name : path ≠ []) (found : tree.files.find? (directory ++ path) = some content) :
    tree.resolve? (shown root path) = some (directory ++ path) := by
  have names := sound.fullyNamed.wellNamed.isName found
  have named : ∀ name ∈ path, name ≠ "" := fun name member =>
    (sound.named _ (FileTree.key_of_find? found) name (List.mem_append_right _ member)).1
  rw [FileTree.resolve?_eq_follow?, parts_shown root some_name names,
    follow?_lead_append leads some_name named, FileTree.foldlM_step?_of_file sound found]

end Discovery

/-- Whether a found file is the one at a place, and how it is told leads there. -/
def FoundFile.StandsAt (tree : FileTree) (file : FoundFile) (place : Path) : Prop :=
  tree.resolve? file.path = some place ∧ tree.files.find? place = some file.content

end SqlFixture
