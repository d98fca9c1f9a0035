import SqlFixture.Proofs.Leading

/-
**What a pattern finds.**

A pattern whose wildcards are asterisks and question marks finds exactly the files below its root
whose paths divide among its components, in the order of their paths, and tells each of them by a
path that leads to it. A pattern with classes finds no other files either, unless it has both a
double asterisk and a class that holds the slash: such a class may take the slash between two names.

* `Discovery.divides_of_matched`, `matched_of_divides`: matched texts against divided paths;
* `FoundFile.LiesAt`, `LiesAt.exists_standsAt`: where a found file stands, and that how it is told
  leads there;
* `discover_exact`: what a pattern without classes finds;
* `divides_of_discover`: what any pattern finds.
-/

namespace SqlFixture

open Glob (Component Pattern Piece)

/-! ### Matched and divided paths -/

namespace Discovery

variable {components : List String} {pieces : List Piece} {read : List Component} {path : Path}

/-- The depth of a search is that of its components. -/
theorem withinDepth_iff (reads : components.mapM Component.ofText = .ok read) :
    withinDepth components path = true ↔
      .anyDirectories ∈ read ∨ path.length ≤ read.length := by
  rw [withinDepth, Bool.or_eq_true, decide_eq_true_iff, List.contains_iff_mem,
    Component.anyDirectories_mem_iff reads, Component.length_of_mapM_ofText reads]

theorem ne_nil_of_reads (reads : components.mapM Component.ofText = .ok read)
    (some_component : components ≠ []) : read ≠ [] := by
  rintro rfl
  exact some_component (List.length_eq_zero_iff.mp (Component.length_of_mapM_ofText reads).symm)

/-- A path that is matched within the depth divides: without a double asterisk it has no more names
than there are components. -/
theorem divides_of_matched (reads : components.mapM Component.ofText = .ok read)
    (pieces_eq : Piece.ofComponents read = .ok pieces) (some_component : components ≠ [])
    (slashless : ∀ component ∈ components, '/' ∉ component.toList) (some_name : path ≠ [])
    (names : ∀ name ∈ path, Path.IsName name) (depth : withinDepth components path = true)
    (matched : Glob.accepts pieces path.joined.toList = true) :
    Component.Divides read path ∨
      .anyDirectories ∈ read ∧ ∃ component ∈ read, component.HasSlashClass := by
  by_cases crossing : .anyDirectories ∈ read ∧ ∃ component ∈ read, component.HasSlashClass
  · exact .inr crossing
  · have keeps : (∀ component ∈ read, ¬component.TakesSlash) ∨
        .anyDirectories ∉ read ∧ path.joined.toList.count '/' < read.length := by
      by_cases directories : .anyDirectories ∈ read
      · refine .inl fun component member takes => crossing ⟨directories, component, member, ?_⟩
        obtain ⟨text, among, here⟩ := Component.exists_text_of_mem reads member
        exact Component.hasSlashClass_of_takesSlash here (slashless text among) takes
      · refine .inr ⟨directories, ?_⟩
        have short := ((withinDepth_iff reads).mp depth).resolve_left directories
        rw [← Path.count_joined names some_name] at short
        exact short
    have divided := Component.divides_of_accepts pieces_eq
      (ne_nil_of_reads reads some_component) keeps matched
    rw [String.ofList_toList, Path.parts_joined names some_name] at divided
    exact .inl divided

/-- **The depth of a search drops no path that divides**, and the text of the path is matched. -/
theorem matched_of_divides (reads : components.mapM Component.ofText = .ok read)
    (pieces_eq : Piece.ofComponents read = .ok pieces) (some_component : components ≠ [])
    (ends : components.getLast? ≠ some "**")
    (names : Glob.AreNames (path.map String.toList)) (divided : Component.Divides read path) :
    path ≠ [] ∧ withinDepth components path = true ∧
      Glob.accepts pieces path.joined.toList = true := by
  have some_read := ne_nil_of_reads reads some_component
  have last : read.getLast? ≠ some .anyDirectories :=
    fun same => ends ((Component.getLast?_eq_anyDirectories_iff reads).mp same)
  refine ⟨divided.ne_nil some_read last, (withinDepth_iff reads).mpr ?_,
    Component.accepts_of_divides pieces_eq some_read last names divided⟩
  by_cases directories : .anyDirectories ∈ read
  · exact .inl directories
  · exact .inr (divided.length_eq directories).le

end Discovery

/-! ### What is found -/

/-- Whether a file stands at a path below the root of a pattern, and is told so. -/
def FoundFile.LiesAt (tree : FileTree) (pattern : String) (file : FoundFile) (path : Path) : Prop :=
  ∃ directory, tree.directory? (Pattern.root pattern) = some directory ∧
    tree.files.find? (directory ++ path) = some file.content ∧
    file.path = Discovery.shown (Pattern.root pattern) path

variable {tree : FileTree} {pattern : String} {files : List FoundFile}

/-- How a file is told leads to where it stands below the root. -/
theorem FoundFile.LiesAt.exists_standsAt {file : FoundFile} {path : Path} (sound : tree.IsSound)
    (lies : file.LiesAt tree pattern path) :
    ∃ directory, tree.directory? (Pattern.root pattern) = some directory ∧
      file.StandsAt tree (directory ++ path) := by
  obtain ⟨directory, here, below, told⟩ := lies
  have some_name : path ≠ [] := by
    rintro rfl
    have apart := sound.apart _ (FileTree.key_of_find? below)
    rw [List.append_nil, (FileTree.directory?_eq_some_iff.mp here).2] at apart
    cases apart
  have leads := Discovery.resolve?_shown sound here some_name below
  rw [← told] at leads
  exact ⟨directory, here, leads, below⟩

/-- The search of a pattern with a wildcard, if its root is a directory. -/
theorem discover_of_wild (some_wild : Pattern.wild pattern ≠ []) {directory : Path}
    (here : tree.directory? (Pattern.root pattern) = some directory) :
    discover tree pattern = Piece.ofTexts (Pattern.wild pattern) >>= fun pieces =>
      if (Glob.Size.ofPieces pieces).fits then
        .ok (Discovery.search tree (Pattern.root pattern) directory (Pattern.wild pattern) pieces)
      else .error .tooLarge := by
  rw [discover, Pattern.parse_eq_search some_wild]
  simp only [here]
  refine bind_congr fun pieces => ?_
  rw [Piece.withinLimit]
  split <;> rfl

theorem discover_of_no_directory (some_wild : Pattern.wild pattern ≠ [])
    (nowhere : tree.directory? (Pattern.root pattern) = none) : discover tree pattern = .ok [] := by
  rw [discover, Pattern.parse_eq_search some_wild]
  simp only [nowhere]

/-- What is found comes from a search with the pieces of the pattern's components. -/
theorem exists_search_of_discover (some_wild : Pattern.wild pattern ≠ []) {directory : Path}
    (here : tree.directory? (Pattern.root pattern) = some directory)
    (found : discover tree pattern = .ok files) :
    ∃ components pieces, (Pattern.wild pattern).mapM Component.ofText = .ok components ∧
      Piece.ofComponents components = .ok pieces ∧
      files = Discovery.search tree (Pattern.root pattern) directory (Pattern.wild pattern)
        pieces := by
  have searched := found.symm.trans (discover_of_wild some_wild here)
  obtain ⟨pieces, texts_eq, same⟩ := Directive.bind_eq_ok_iff.mp searched.symm
  obtain ⟨components, reads, pieces_eq⟩ := Directive.bind_eq_ok_iff.mp texts_eq
  split at same
  next => exact ⟨components, pieces, reads, pieces_eq, (Except.ok.inj same).symm⟩
  next => cases same

theorem pairwise_discover (named : tree.WellNamed) (some_wild : Pattern.wild pattern ≠ [])
    (found : discover tree pattern = .ok files) :
    (files.map fun file => Path.parts file.path).Pairwise (· < ·) := by
  cases here : tree.directory? (Pattern.root pattern) with
  | none =>
    obtain rfl := Except.ok.inj (found.symm.trans (discover_of_no_directory some_wild here))
    exact .nil
  | some directory =>
    obtain ⟨_, pieces, _, _, rfl⟩ := exists_search_of_discover some_wild here found
    exact Discovery.pairwise_search named ..

/-- The names of a found file divide, or some class may take a slash. -/
theorem exists_divides_of_mem (named : tree.WellNamed) (some_wild : Pattern.wild pattern ≠ [])
    (found : discover tree pattern = .ok files) {file : FoundFile} (member : file ∈ files) :
    ∃ path components, file.LiesAt tree pattern path ∧
      (Pattern.wild pattern).mapM Component.ofText = .ok components ∧
      (Component.Divides components path ∨
        .anyDirectories ∈ components ∧ ∃ component ∈ components, component.HasSlashClass) := by
  cases here : tree.directory? (Pattern.root pattern) with
  | none =>
    obtain rfl := Except.ok.inj (found.symm.trans (discover_of_no_directory some_wild here))
    cases member
  | some directory =>
    obtain ⟨components, pieces, reads, pieces_eq, rfl⟩ :=
      exists_search_of_discover some_wild here found
    obtain ⟨path, some_name, below, told, depth, matched⟩ := Discovery.mem_search_iff.mp member
    exact ⟨path, components, ⟨directory, here, below, told⟩, reads,
      Discovery.divides_of_matched reads pieces_eq some_wild
        (fun _ among => Pattern.slash_not_mem_of_mem_wild among) some_name
        (named.isName below) depth matched⟩

/-- A file whose names divide is found, if the pattern does not end with a double asterisk. -/
theorem mem_of_divides (named : tree.FullyNamed) (some_wild : Pattern.wild pattern ≠ [])
    (found : discover tree pattern = .ok files) (ends : (Path.parts pattern).getLast? ≠ some "**")
    {file : FoundFile} {path : Path} {components : List Component}
    (lies : file.LiesAt tree pattern path)
    (reads : (Pattern.wild pattern).mapM Component.ofText = .ok components)
    (divided : Component.Divides components path) : file ∈ files := by
  obtain ⟨directory, here, below, told⟩ := lies
  obtain ⟨_, pieces, readsToo, pieces_eq, rfl⟩ := exists_search_of_discover some_wild here found
  obtain rfl := Except.ok.inj (reads.symm.trans readsToo)
  rw [← Pattern.getLast?_wild some_wild] at ends
  obtain ⟨some_name, depth, matched⟩ :=
    Discovery.matched_of_divides reads pieces_eq some_wild ends (named.names below) divided
  exact Discovery.mem_search_iff.mpr ⟨path, some_name, below, told, depth, matched⟩

/-- A pattern without classes is not refused but for its size. -/
theorem exists_discover_of_no_class (some_wild : Pattern.wild pattern ≠ [])
    (noClass : '[' ∉ pattern.toList) (small : discover tree pattern ≠ .error .tooLarge) :
    ∃ files, discover tree pattern = .ok files := by
  cases here : tree.directory? (Pattern.root pattern) with
  | none => exact ⟨[], discover_of_no_directory some_wild here⟩
  | some directory =>
    obtain ⟨pieces, pieces_eq⟩ := Component.exists_ofComponents_wildcards (Pattern.wild pattern)
    have texts_eq : Piece.ofTexts (Pattern.wild pattern) = .ok pieces :=
      Directive.bind_eq_ok_iff.mpr ⟨_, Pattern.reads_of_no_class noClass, pieces_eq⟩
    have searched := discover_of_wild some_wild here
    rw [texts_eq] at searched
    by_cases fits : (Glob.Size.ofPieces pieces).fits = true
    · exact ⟨_, searched.trans (if_pos fits)⟩
    · exact absurd (searched.trans (if_neg fits)) small

/-- A pattern with a wildcard and without classes finds a file exactly if its path divides. -/
theorem mem_iff_divides_of_no_class (named : tree.FullyNamed) (some_wild : Pattern.wild pattern ≠ [])
    (noClass : '[' ∉ pattern.toList) (ends : (Path.parts pattern).getLast? ≠ some "**")
    (found : discover tree pattern = .ok files) {file : FoundFile} :
    file ∈ files ↔ ∃ path, file.LiesAt tree pattern path ∧
      Component.Divides ((Pattern.wild pattern).map Component.ofWildcards) path := by
  have plain := Pattern.reads_of_no_class noClass
  constructor
  · intro member
    obtain ⟨path, components, lies, reads, divided⟩ :=
      exists_divides_of_mem named.wellNamed some_wild found member
    obtain rfl := Except.ok.inj (plain.symm.trans reads)
    refine ⟨path, lies, divided.resolve_right ?_⟩
    rintro ⟨_, component, among, crosses⟩
    obtain ⟨text, _, rfl⟩ := List.mem_map.mp among
    exact Component.not_hasSlashClass_ofWildcards text crosses
  · rintro ⟨path, lies, divided⟩
    exact mem_of_divides named some_wild found ends lies plain divided

/-- **A pattern without classes finds exactly the files whose paths divide.** They come in strictly
increasing order, name by name. There are none if the root of the pattern is no directory. And each
of them is told by a path that leads to it, if no name means something else in a path. -/
theorem discover_exact (named : tree.FullyNamed)
    (wildcard : '*' ∈ pattern.toList ∨ '?' ∈ pattern.toList) (noClass : '[' ∉ pattern.toList)
    (ends : (Path.parts pattern).getLast? ≠ some "**")
    (small : discover tree pattern ≠ .error .tooLarge) :
    ∃ files, discover tree pattern = .ok files ∧
      (files.map fun file => Path.parts file.path).Pairwise (· < ·) ∧
      (∀ file, file ∈ files ↔ ∃ path, file.LiesAt tree pattern path ∧
        Component.Divides ((Pattern.wild pattern).map Component.ofWildcards) path) ∧
      (tree.IsSound → ∀ file ∈ files, ∃ directory path,
        tree.directory? (Pattern.root pattern) = some directory ∧
        Component.Divides ((Pattern.wild pattern).map Component.ofWildcards) path ∧
        file.StandsAt tree (directory ++ path)) := by
  have some_wild : Pattern.wild pattern ≠ [] := by
    rcases wildcard with asterisk | question
    · exact Pattern.wild_ne_nil asterisk (.inl rfl)
    · exact Pattern.wild_ne_nil question (.inr (.inl rfl))
  obtain ⟨files, found⟩ := exists_discover_of_no_class some_wild noClass small
  refine ⟨files, found, pairwise_discover named.wellNamed some_wild found, fun file => ?_,
    fun sound file member => ?_⟩
  · exact mem_iff_divides_of_no_class named some_wild noClass ends found
  · obtain ⟨path, lies, divided⟩ :=
      (mem_iff_divides_of_no_class named some_wild noClass ends found).mp member
    obtain ⟨directory, here, stands⟩ := lies.exists_standsAt sound
    exact ⟨directory, path, here, divided, stands⟩

/-- Files in nested directories. -/
theorem discover_exact_of_nested :
    let tree : FileTree := ⟨.ofList [(["t", "a.sql"], asciiBytes "SELECT 1"),
      (["t", "x", "b.sql"], asciiBytes "SELECT 2"), (["t", "x", "cd.sql"], asciiBytes "SELECT 3")],
      [], []⟩
    let pattern := "t/**/?.sql"
    tree.IsSound ∧ tree.directory? (Pattern.root pattern) = some ["t"] ∧
    ∃ files, discover tree pattern = .ok files ∧
      (files.map fun file => Path.parts file.path).Pairwise (· < ·) ∧
      (∀ file, file ∈ files ↔ ∃ path, file.LiesAt tree pattern path ∧
        Component.Divides ((Pattern.wild pattern).map Component.ofWildcards) path) ∧
      ∀ file ∈ files, ∃ path, file.StandsAt tree (["t"] ++ path) := by
  intro tree pattern
  have sound : tree.IsSound := by
    refine ⟨?_, by decide +kernel⟩
    unfold Path.IsName
    decide +kernel
  have here : tree.directory? (Pattern.root pattern) = some ["t"] := by decide +kernel
  have small : discover tree pattern ≠ .error .tooLarge := by decide +kernel
  obtain ⟨files, found, sorted, exactly, standing⟩ :=
    discover_exact sound.fullyNamed (.inl (by decide)) (by decide) (by decide) small
  refine ⟨sound, here, files, found, sorted, exactly, fun file member => ?_⟩
  obtain ⟨directory, path, leads, _, stands⟩ := standing sound file member
  obtain rfl := Option.some.inj (here.symm.trans leads)
  exact ⟨path, stands⟩

/-- **The names of a found file divide among the components of the pattern**, unless it has a double
asterisk and a class that holds the slash. And every file whose names divide is found, unless the
pattern ends with a double asterisk. -/
theorem divides_of_discover (named : tree.FullyNamed) (bracket : '[' ∈ pattern.toList)
    (found : discover tree pattern = .ok files) :
    (∀ file ∈ files, ∃ path components, file.LiesAt tree pattern path ∧
      (Pattern.wild pattern).mapM Component.ofText = .ok components ∧
      (Component.Divides components path ∨
        .anyDirectories ∈ components ∧ ∃ component ∈ components, component.HasSlashClass)) ∧
    ((Path.parts pattern).getLast? ≠ some "**" →
      ∀ (file : FoundFile) (path : Path) (components : List Component),
        file.LiesAt tree pattern path →
        (Pattern.wild pattern).mapM Component.ofText = .ok components →
        Component.Divides components path → file ∈ files) := by
  have some_wild := Pattern.wild_ne_nil bracket (.inr (.inr rfl))
  constructor
  · exact fun file member => exists_divides_of_mem named.wellNamed some_wild found member
  · exact fun ends file path components lies reads divided =>
      mem_of_divides named some_wild found ends lies reads divided

/-- A class of two letters does not hold the slash. -/
theorem divides_of_discover_of_letters :
    let tree : FileTree := ⟨.ofList [(["t", "x", "b.sql"], asciiBytes "SELECT 1")], [], []⟩
    let pattern := "t/**/[ab]*.sql"
    let file : FoundFile := ⟨"t/x/b.sql", asciiBytes "SELECT 1"⟩
    tree.FullyNamed ∧ '[' ∈ pattern.toList ∧ discover tree pattern = .ok [file] ∧
    ∃ path components, file.LiesAt tree pattern path ∧
      (Pattern.wild pattern).mapM Component.ofText = .ok components ∧
      Component.Divides components path := by
  intro tree pattern file
  have named : tree.FullyNamed := by
    unfold FileTree.FullyNamed Path.IsName
    decide +kernel
  have bracket : '[' ∈ pattern.toList := by decide
  have found : discover tree pattern = .ok [file] := by decide +kernel
  obtain ⟨path, components, lies, reads, divided⟩ :=
    (divides_of_discover named bracket found).1 file List.mem_cons_self
  refine ⟨named, bracket, found, path, components, lies, reads, divided.resolve_right ?_⟩
  have written : (Pattern.wild pattern).mapM Component.ofText = .ok [.anyDirectories,
      .name (.brackets false [.plain 'a', .plain 'b'] :: .asterisk ::
        ".sql".toList.map .plain)] := by decide +kernel
  obtain rfl := Except.ok.inj (written.symm.trans reads)
  rintro ⟨_, component, member, crosses⟩
  rcases List.mem_cons.mp member with rfl | member
  · exact crosses
  · obtain rfl := List.mem_singleton.mp member
    obtain ⟨negated, marks, set, bracketed, isClass, holds⟩ := crosses
    obtain ⟨rfl, rfl⟩ : negated = false ∧ marks = [.plain 'a', .plain 'b'] := by
      simpa using bracketed
    cases isClass
    revert holds
    decide

/-- **A class that holds the slash takes it** behind a double asterisk, and so one component takes
two names. -/
theorem class_takes_slash :
    let tree : FileTree := ⟨.ofList [(["x", "y.sql"], asciiBytes "SELECT 1")], [], []⟩
    let pattern := "**/x[!b]y.sql"
    let file : FoundFile := ⟨"x/y.sql", asciiBytes "SELECT 1"⟩
    tree.FullyNamed ∧ '[' ∈ pattern.toList ∧ discover tree pattern = .ok [file] ∧
    ¬∃ path components, file.LiesAt tree pattern path ∧
      (Pattern.wild pattern).mapM Component.ofText = .ok components ∧
      Component.Divides components path := by
  intro tree pattern file
  refine ⟨?_, by decide, by decide +kernel, ?_⟩
  · unfold FileTree.FullyNamed Path.IsName
    decide +kernel
  · rintro ⟨path, components, ⟨directory, here, below, _⟩, reads, divided⟩
    have root_here : tree.directory? (Pattern.root pattern) = some [] := by decide +kernel
    obtain rfl := Option.some.inj (root_here.symm.trans here)
    have path_eq : path = ["x"] ++ ["y.sql"] := by
      have entries : tree.files.entries = [(["x", "y.sql"], asciiBytes "SELECT 1")] := by
        decide +kernel
      have member := Dictionary.find?_eq_some_iff.mp below
      rw [entries, List.mem_singleton] at member
      exact (Prod.mk.inj member).1
    have written : (Pattern.wild pattern).mapM Component.ofText = .ok [.anyDirectories,
        .name (.plain 'x' :: .brackets true [.plain 'b'] :: "y.sql".toList.map .plain)] := by
      decide +kernel
    obtain rfl := Except.ok.inj (written.symm.trans reads)
    -- The component is left with the last name, which does not begin as it does.
    generalize whole : path = names at divided
    cases divided with
    | anyDirectories front divided =>
      cases divided with
      | name matched divided =>
        cases divided
        obtain ⟨_, last⟩ := List.append_inj' (whole.symm.trans path_eq) rfl
        obtain rfl := List.singleton_inj.mp last
        cases matched

end SqlFixture
