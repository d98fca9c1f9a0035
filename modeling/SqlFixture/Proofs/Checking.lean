import SqlFixture.CommandLine.Session
import SqlFixture.Proofs.Discovered
import SqlFixture.Proofs.NamedSources
import SqlFixture.Proofs.Outcome

/-
**Checking agrees with building the set.**

Checking builds the files of a pattern one by one and goes on behind those that fail. The set of the
pattern is built from the same files, and ends with the first one that fails. So the one passes
exactly if the other is made, and they tell of the same failure first. What checking writes is told
here as text, with the marks and the words as a reader finds them.

* `Session.markText`, `totalsText`: the text on a file, and the one behind all files;
* `Session.Outcome.codes`, `MarksFirst`: what a run tells first;
* `Session.exists_output_checkOutcome`: the whole text of a check;
* `Session.check_of_files`, `check_eq_failed`: checking, with and without files;
* `Session.checkOutcome_of_builds`, `checkOutcome_of_firstFailure`: what files come to that make
  up a set, or do not;
* `Session.check_agrees`: checking and building the set, compared.
-/

namespace SqlFixture

/-- A found file as a source, named by its path. -/
def FoundFile.source (file : FoundFile) : Source := ⟨file.path, .ok file.content⟩

namespace TestSet

variable {config : Config} {tree : FileTree} {pattern : String}

theorem ofPattern_of_fault {fault : Glob.Fault} (spoiled : discover tree pattern = .error fault) :
    ofPattern config tree pattern = .error (.pattern pattern fault) := by
  unfold ofPattern
  rw [spoiled]

theorem ofPattern_of_files {files : List FoundFile} (found : discover tree pattern = .ok files) :
    ofPattern config tree pattern = ofSources config (files.map FoundFile.source) := by
  unfold ofPattern
  rw [found]
  rfl

/-- A set of a pattern has the tests of its files. -/
theorem exists_of_ofPattern_eq_ok {set : TestSet}
    (made : ofPattern config tree pattern = .ok set) :
    ∃ files entries, discover tree pattern = .ok files ∧ files ≠ [] ∧
      List.Forall₂ (Source.Builds config) (files.map FoundFile.source) entries ∧
      set.tests = .ofList entries := by
  cases found : discover tree pattern with
  | error fault =>
    rw [ofPattern_of_fault found] at made
    cases made
  | ok files =>
    rw [ofPattern_of_files found] at made
    obtain ⟨entries, builds, tests⟩ := ofSources_eq_ok_iff.mp made
    refine ⟨files, entries, rfl, ?_, builds, tests⟩
    rintro rfl
    cases builds
    have nonempty := set.nonempty
    rw [tests] at nonempty
    cases nonempty

/-- A set of a pattern fails to build with its files. -/
theorem exists_of_ofPattern_eq_build {name : String} {cause : BuildError}
    (failed : ofPattern config tree pattern = .error (.build name cause)) :
    ∃ files, discover tree pattern = .ok files ∧ files ≠ [] ∧
      Source.FirstFailure config (files.map FoundFile.source) (.build name cause) := by
  cases found : discover tree pattern with
  | error fault =>
    rw [ofPattern_of_fault found] at failed
    cases failed
  | ok files =>
    rw [ofPattern_of_files found] at failed
    rcases ofSources_eq_error_iff.mp failed with ⟨_, absurdity⟩ | first
    · cases absurdity
    · refine ⟨files, rfl, ?_, first⟩
      rintro rfl
      exact Source.ne_nil_of_firstFailure first rfl

end TestSet

theorem BuildError.head?_codes (failure : BuildError) :
    failure.diagnostic.codes.head? = some failure.code := by
  unfold diagnostic
  cases failure.cause?.map StatementError.diagnostic <;> rfl

namespace Session

variable {tree : FileTree} {config : Config} {pattern : String} {files : List FoundFile}

/-! ### What is told -/

/-- The text on a file that builds. -/
def passedText (path : String) (count : Nat) : String :=
  "✓ " ++ path ++ " (" ++ toString count ++ " statements)\n"

/-- The text on a file that fails. -/
def failedText (path : String) : String := "✗ " ++ path ++ "\n"

/-- The text on a file, by what building it comes to. -/
def markText (config : Config) (file : FoundFile) : String :=
  match Test.build config file.path file.content with
  | .ok test => passedText file.path test.statements.length
  | .error _ => failedText file.path

/-- The text behind all files. -/
def totalsText (passed failed : Nat) : String :=
  "\n" ++ toString passed ++ " passed, " ++ toString failed ++ " failed\n"

namespace Outcome

/-- The codes of all reports, in order. -/
def codes (outcome : Outcome) : List String := outcome.reports.flatMap Report.codes

/-- The first of some files that is marked as failed is the one at `path`. It does not build, and
those in front of it do; what is written begins with the texts on these, each with the number of its
statements. -/
def MarksFirst (outcome : Outcome) (config : Config) (files : List FoundFile) (path : String) :
    Prop :=
  ∃ (earlier : List (FoundFile × Test)) (file : FoundFile) (behind : List FoundFile)
    (later : String),
    files = earlier.map Prod.fst ++ file :: behind ∧ file.path = path ∧
    (∀ entry ∈ earlier, Test.build config entry.1.path entry.1.content = .ok entry.2) ∧
    (∃ cause, Test.build config file.path file.content = .error cause) ∧
    outcome.output =
      String.join (earlier.map fun entry => passedText entry.1.path entry.2.statements.length) ++
        (failedText path ++ later)

end Outcome

/-! ### One file -/

section One

variable {file : FoundFile}

theorem of_ok {test : Test} (built : Test.build config file.path file.content = .ok test) :
    (checkFile config file).report? = none ∧
      markText config file = passedText file.path test.statements.length := by
  simp [checkFile, Checked.report?, markText, built]

theorem of_error {failure : BuildError}
    (failed : Test.build config file.path file.content = .error failure) :
    (checkFile config file).report? = some ⟨failure.message, some failure.diagnostic⟩ ∧
      markText config file = failedText file.path := by
  simp [checkFile, Checked.report?, markText, failed]

/-- The line on a file, as it is written. -/
theorem line_append_newline (config : Config) (file : FoundFile) :
    (checkFile config file).line ++ "\n" = markText config file := by
  have closes : " statements)" ++ "\n" = " statements)\n" := by decide
  unfold Checked.line markText checkFile
  cases Test.build config file.path file.content with
  | ok test =>
    show "✓ " ++ file.path ++ " (" ++ toString test.statements.length ++ " statements)" ++ "\n" = _
    rw [String.append_assoc, closes]
    rfl
  | error failure => rfl

end One

/-- The last line, with the empty one before it. -/
theorem totals_append_newline (passed failed : Nat) :
    "\n" ++ (totals passed failed ++ "\n") = totalsText passed failed := by
  have closes : " failed" ++ "\n" = " failed\n" := by decide
  show "\n" ++ (toString passed ++ " passed, " ++ toString failed ++ " failed" ++ "\n") = _
  simp only [totalsText, ← closes, String.append_assoc]

/-! ### Several files -/

/-- Each file builds or does not. -/
theorem countP_add_countP (config : Config) (files : List FoundFile) :
    (files.map (checkFile config)).countP Checked.passes +
      (files.countP fun file => !(Test.build config file.path file.content).isOk) =
        files.length := by
  rw [List.countP_map, List.length_eq_countP_add_countP (Checked.passes ∘ checkFile config)]
  refine congrArg _ (List.countP_congr fun file _ => ?_)
  simp [Checked.passes, checkFile]

theorem length_sub_passed (config : Config) (files : List FoundFile) :
    (files.map (checkFile config)).length -
      (files.map (checkFile config)).countP Checked.passes =
        files.countP fun file => !(Test.build config file.path file.content).isOk := by
  rw [List.length_map, ← countP_add_countP config files, Nat.add_sub_cancel_left]

theorem exitCode_checkOutcome (config : Config) (files : List FoundFile) :
    (checkOutcome (files.map (checkFile config))).exitCode =
      if (files.countP fun file => !(Test.build config file.path file.content).isOk) = 0 then 0
      else 1 := by
  rw [← length_sub_passed]
  rfl

/-- **The whole text of a check.** A text on each file is followed by totals, which count them. -/
theorem exists_output_checkOutcome (config : Config) (files : List FoundFile) :
    ∃ passed failed,
      (checkOutcome (files.map (checkFile config))).output =
        String.join (files.map (markText config)) ++ totalsText passed failed ∧
      passed + failed = files.length ∧
      failed = files.countP fun file => !(Test.build config file.path file.content).isOk := by
  have each : ((files.map (checkFile config)).map Checked.line).map (· ++ "\n") =
      files.map (markText config) := by
    rw [List.map_map, List.map_map]
    exact List.map_congr_left fun file _ => line_append_newline config file
  refine ⟨(files.map (checkFile config)).countP Checked.passes, _, ?_,
    countP_add_countP config files, rfl⟩
  rw [← length_sub_passed, ← totals_append_newline]
  simp only [checkOutcome, writtenLines, List.map_append, each, String.join_append]
  simp

/-- Files that all build are all marked so. -/
theorem checkOutcome_of_builds {entries : List (String × Test)}
    (builds : List.Forall₂ (Source.Builds config) (files.map FoundFile.source) entries) :
    (checkOutcome (files.map (checkFile config))).exitCode = 0 ∧
      (checkOutcome (files.map (checkFile config))).output =
        String.join (entries.map fun entry => passedText entry.1 entry.2.statements.length) ++
          totalsText files.length 0 := by
  have each : (files.countP fun file => !(Test.build config file.path file.content).isOk) = 0 ∧
      files.map (markText config) =
        entries.map fun entry => passedText entry.1 entry.2.statements.length := by
    rw [List.forall₂_map_left_iff] at builds
    induction builds with
    | nil => exact ⟨rfl, rfl⟩
    | @cons file entry files entries first _ ih =>
      have built : Test.build config file.path file.content = .ok entry.2 := first.test
      have named : entry.1 = file.path := first.name
      constructor
      · simpa [built, Except.isOk, Except.toBool] using ih.1
      · rw [List.map_cons, List.map_cons, ih.2, (of_ok built).2, named]
  obtain ⟨passed, failed, told, counted, failing⟩ := exists_output_checkOutcome config files
  rw [each.1] at failing
  rw [failing, Nat.add_zero] at counted
  rw [exitCode_checkOutcome, told, each.1, each.2, counted, failing]
  exact ⟨rfl, rfl⟩

/-- Files that build, each with its test. -/
theorem exists_entries_of_build
    (builds : ∀ file ∈ files, ∃ test, Test.build config file.path file.content = .ok test) :
    ∃ entries : List (FoundFile × Test), files = entries.map Prod.fst ∧
      ∀ entry ∈ entries, Test.build config entry.1.path entry.1.content = .ok entry.2 := by
  induction files with
  | nil => exact ⟨[], rfl, nofun⟩
  | cons file files ih =>
    obtain ⟨⟨test, built⟩, others⟩ := List.forall_mem_cons.mp builds
    obtain ⟨entries, rfl, later⟩ := ih others
    exact ⟨(file, test) :: entries, rfl, List.forall_mem_cons.mpr ⟨built, later⟩⟩

section First

variable {earlier : List (FoundFile × Test)} {file : FoundFile} {cause : BuildError}
  (passed : ∀ entry ∈ earlier, Test.build config entry.1.path entry.1.content = .ok entry.2)
  (fails : Test.build config file.path file.content = .error cause) (behind : List FoundFile)

include passed fails

/-- Behind files that build, one that does not is the first that is marked as failed. -/
theorem marksFirst_checkOutcome :
    (checkOutcome ((earlier.map Prod.fst ++ file :: behind).map (checkFile config))).MarksFirst
      config (earlier.map Prod.fst ++ file :: behind) file.path := by
  have marks : (earlier.map Prod.fst).map (markText config) =
      earlier.map fun entry => passedText entry.1.path entry.2.statements.length := by
    rw [List.map_map]
    exact List.map_congr_left fun entry among => (of_ok (passed entry among)).2
  obtain ⟨_, _, told, _⟩ :=
    exists_output_checkOutcome config (earlier.map Prod.fst ++ file :: behind)
  have texts : String.join ((earlier.map Prod.fst ++ file :: behind).map (markText config)) =
      String.join (earlier.map fun entry => passedText entry.1.path entry.2.statements.length) ++
        (failedText file.path ++ String.join (behind.map (markText config))) := by
    rw [List.map_append, marks, List.map_cons, (of_error fails).2, String.join_append,
      String.join_cons]
  rw [texts, String.append_assoc, String.append_assoc] at told
  exact ⟨earlier, file, behind, _, rfl, rfl, passed, ⟨cause, fails⟩, told⟩

/-- Nothing is reported on files that build, so that its code is the first one that is told. -/
theorem head?_codes_checkOutcome :
    (checkOutcome ((earlier.map Prod.fst ++ file :: behind).map (checkFile config))).codes.head? =
      some cause.code := by
  have silent :
      ((earlier.map Prod.fst).map (checkFile config)).filterMap Checked.report? = [] := by
    simp only [List.filterMap_eq_nil_iff, List.forall_mem_map]
    intro entry among
    exact (of_ok (passed entry among)).1
  have first : Report.codes ⟨cause.message, some cause.diagnostic⟩ = cause.diagnostic.codes :=
    List.append_nil _
  unfold Outcome.codes checkOutcome
  rw [List.map_append, List.filterMap_append, silent, List.nil_append, List.map_cons,
    List.filterMap_cons_some (of_error fails).1, List.flatMap_cons, List.head?_append, first,
    cause.head?_codes]
  rfl

end First

/-- The first failure of the sources is the first one that is told. -/
theorem checkOutcome_of_firstFailure {name : String} {cause : BuildError}
    (first : Source.FirstFailure config (files.map FoundFile.source) (.build name cause)) :
    (checkOutcome (files.map (checkFile config))).exitCode ≠ 0 ∧
      (checkOutcome (files.map (checkFile config))).MarksFirst config files name ∧
      (checkOutcome (files.map (checkFile config))).codes.head? = some cause.code := by
  obtain ⟨_, source, later, other, divided, builds, fails, told⟩ := first
  obtain ⟨rfl, rfl⟩ := SetError.build.inj told
  obtain ⟨front, back, rfl, rfl, rest⟩ := List.map_eq_append_iff.mp divided
  obtain ⟨file, behind, rfl, rfl, rfl⟩ := List.map_eq_cons_iff.mp rest
  have built : ∀ before ∈ front,
      ∃ test, Test.build config before.path before.content = .ok test := fun before among =>
    builds before.source (List.mem_map_of_mem among)
  obtain ⟨earlier, rfl, passed⟩ := exists_entries_of_build built
  have failed : Test.build config file.path file.content = .error cause := fails
  refine ⟨?_, marksFirst_checkOutcome passed failed behind,
    head?_codes_checkOutcome passed failed behind⟩
  rw [exitCode_checkOutcome, if_neg fun zero => ?_]
  · exact Nat.one_ne_zero
  · have passes := List.countP_eq_zero.mp zero file (by simp)
    rw [failed] at passes
    exact passes rfl

/-! ### The files of a pattern -/

theorem check_of_files (found : discover tree pattern = .ok files) (some_file : files ≠ []) :
    check tree config pattern = checkOutcome (files.map (checkFile config)) := by
  unfold check
  rw [found]
  cases files with
  | nil => exact absurd rfl some_file
  | cons => rfl

/-- Without files nothing is written, and the failure is told that the set comes to. -/
theorem check_eq_failed {failure : SetError}
    (failed : TestSet.ofPattern config tree pattern = .error failure)
    (other : ∀ name cause, failure ≠ .build name cause) :
    check tree config pattern = Session.failed failure.message failure.diagnostic := by
  unfold check
  cases found : discover tree pattern with
  | error fault =>
    rw [TestSet.ofPattern_of_fault found] at failed
    obtain rfl := Except.error.inj failed
    rfl
  | ok files =>
    rw [TestSet.ofPattern_of_files found] at failed
    rcases TestSet.ofSources_eq_error_iff.mp failed with ⟨nothing, rfl⟩ | first
    · obtain rfl : files = [] := List.map_eq_nil_iff.mp nothing
      rfl
    · obtain ⟨_, source, _, cause, _, _, _, same⟩ := first
      exact absurd same (other source.name cause)

/-- Checking passes exactly if there is a set. -/
theorem exitCode_check_eq_zero_iff :
    (check tree config pattern).exitCode = 0 ↔
      ∃ set, TestSet.ofPattern config tree pattern = .ok set := by
  constructor
  · intro passed
    cases made : TestSet.ofPattern config tree pattern with
    | ok set => exact ⟨set, rfl⟩
    | error failure =>
      by_cases build : ∃ name cause, failure = .build name cause
      · obtain ⟨name, cause, rfl⟩ := build
        obtain ⟨files, found, some_file, first⟩ := TestSet.exists_of_ofPattern_eq_build made
        rw [check_of_files found some_file] at passed
        exact absurd passed (checkOutcome_of_firstFailure first).1
      · rw [check_eq_failed made fun name cause same => build ⟨name, cause, same⟩] at passed
        cases passed
  · rintro ⟨set, made⟩
    obtain ⟨files, entries, found, some_file, builds, _⟩ := TestSet.exists_of_ofPattern_eq_ok made
    rw [check_of_files found some_file]
    exact (checkOutcome_of_builds builds).1

/-- **Checking agrees with building the set.** Checking passes exactly if there is a set. If a
fixture keeps the set from being made, it is the first one that checking marks as failed, and its
code is the first one told; if there is no set for another reason, checking tells that code and
writes nothing. If there is a set, checking writes its names with their numbers of statements, in
the order in which the files are found. And whatever files there are, it writes a mark on each one
in that order, then the totals, which are those of the files. -/
theorem check_agrees (named : tree.WellNamed) (config : Config) (pattern : String) :
    ((check tree config pattern).exitCode = 0 ↔
      ∃ set, TestSet.ofPattern config tree pattern = .ok set) ∧
    (∀ name cause, TestSet.ofPattern config tree pattern = .error (.build name cause) →
      ∃ files, discover tree pattern = .ok files ∧
        (check tree config pattern).MarksFirst config files name ∧
        (check tree config pattern).codes.head? = some cause.code) ∧
    (∀ failure, TestSet.ofPattern config tree pattern = .error failure →
      (∀ name cause, failure ≠ .build name cause) →
      (check tree config pattern).exitCode = 1 ∧ (check tree config pattern).output = "" ∧
        (check tree config pattern).codes = [failure.diagnostic.code]) ∧
    (∀ set, TestSet.ofPattern config tree pattern = .ok set →
      ∃ (files : List FoundFile) (entries : List (String × Test)),
        discover tree pattern = .ok files ∧
        entries.map Prod.fst = files.map FoundFile.path ∧ entries.Perm set.toList ∧
        (check tree config pattern).output =
          String.join (entries.map fun entry => passedText entry.1 entry.2.statements.length) ++
            totalsText files.length 0) ∧
    (∀ files, discover tree pattern = .ok files → files ≠ [] →
      ∃ passed failed,
        (check tree config pattern).output =
          String.join (files.map (markText config)) ++ totalsText passed failed ∧
        passed + failed = files.length ∧
        failed = files.countP fun file => !(Test.build config file.path file.content).isOk) := by
  refine ⟨exitCode_check_eq_zero_iff, ?_, ?_, ?_, fun files found some_file => ?_⟩
  · intro name cause made
    obtain ⟨files, found, some_file, first⟩ := TestSet.exists_of_ofPattern_eq_build made
    rw [check_of_files found some_file]
    exact ⟨files, found, (checkOutcome_of_firstFailure first).2⟩
  · intro failure made other
    rw [check_eq_failed made other]
    refine ⟨rfl, rfl, ?_⟩
    cases failure with
    | empty | pattern => rfl
    | build name cause => exact absurd rfl (other name cause)
  · intro set made
    obtain ⟨files, entries, found, some_file, builds, tests⟩ :=
      TestSet.exists_of_ofPattern_eq_ok made
    have names : entries.map Prod.fst = files.map FoundFile.path := by
      rw [Source.names_of_builds builds, List.map_map]
      rfl
    refine ⟨files, entries, found, names, ?_, ?_⟩
    · have nodup := nodup_discover named found
      rw [← names] at nodup
      rw [TestSet.toList, tests]
      exact (Dictionary.ofList_perm nodup).symm
    · rw [check_of_files found some_file]
      exact (checkOutcome_of_builds builds).2
  · rw [check_of_files found some_file]
    exact exists_output_checkOutcome config files

/-- A file that builds beside one that does not, and a pattern that finds no file. -/
theorem check_agrees_beside_failure :
    let tree : FileTree := ⟨.ofList [(["t", "a.sql"], asciiBytes "SELECT 1"),
      (["t", "b.sql"], asciiBytes "assert K 1")], [], []⟩
    tree.WellNamed ∧
    (∃ set, TestSet.ofPattern {} tree "t/a*.sql" = .ok set) ∧
    (check tree {} "t/*.sql").codes.head? = some "sqltest::build::syntax" ∧
    (∃ files, discover tree "t/*.sql" = .ok files ∧
      (check tree {} "t/*.sql").MarksFirst {} files "t/b.sql") ∧
    (check tree {} "t/*.sql").output =
      "✓ t/a.sql (1 statements)\n✗ t/b.sql\n\n1 passed, 1 failed\n" ∧
    (check tree {} "t/c*.sql").output = "" ∧
    (check tree {} "t/c*.sql").codes = ["sqltest::set::empty"] := by
  intro tree
  have named : tree.WellNamed := by
    unfold FileTree.WellNamed Path.IsName
    decide +kernel
  have passes : (check tree {} "t/a*.sql").exitCode = 0 := by decide +kernel
  have fails : Test.failure? (TestSet.ofPattern {} tree "t/*.sql") =
      some (.build "t/b.sql"
        (.refused "t/b.sql" ⟨0, 0⟩ ⟨0, 10⟩ (.assertUndefined "K") "assert K 1")) := by
    decide +kernel
  have nothing : Test.failure? (TestSet.ofPattern {} tree "t/c*.sql") = some .empty := by
    decide +kernel
  obtain ⟨_, first, _⟩ := check_agrees named {} "t/*.sql"
  obtain ⟨files, found, marked, told⟩ := first _ _ (Test.failure?_eq_some_iff.mp fails)
  obtain ⟨_, _, others, _⟩ := check_agrees named {} "t/c*.sql"
  obtain ⟨_, silent, codes⟩ := others _ (Test.failure?_eq_some_iff.mp nothing) nofun
  exact ⟨named, (check_agrees named {} "t/a*.sql").1.mp passes, told, ⟨files, found, marked⟩,
    by decide +kernel, silent, codes⟩

end Session

end SqlFixture
