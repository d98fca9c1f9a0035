import SqlFixture.Proofs.ByteOrder
import SqlFixture.Proofs.NamedSources
import SqlFixture.Proofs.Outcome

/-
**A set has the last source of each name, or there is none.**

The first source that does not build keeps the whole set from being made, even if a later one would
have taken its place. If all sources build, the set has each of their names once, and under a name
the test of the last source that is called so. Sources with different names may come in any order.

* `Dictionary.mem_keys_ofList`, `find?_ofList_of_last`, `ofList_eq_of_perm`: entries that are
  inserted one after the other;
* `Source.AllBuild`, `Source.IsLast`: sources that build, and the last one of a name;
* `TestSet.exists_firstFailure`, `ofSources_of_unreadable`, `exists_of_allBuild`: with and without a
  source that fails;
* `TestSet.ofSources_outcome`: what any list of sources comes to.
-/

namespace SqlFixture

/-! ### Entries one after the other -/

namespace Dictionary

section

variable {κ : Type u} {α : Type v} [LT κ] [DecidableLT κ] [DecidableEq κ] [KeyOrder κ]
  {entries others : List (κ × α)}

theorem mem_keys_ofList {key : κ} :
    key ∈ (ofList entries).keys ↔ key ∈ entries.map Prod.fst := by
  induction entries using List.reverseRecOn with
  | nil => exact Iff.rfl
  | append_singleton entries entry ih =>
    rw [ofList_concat, mem_keys_insert, ih, List.map_append, List.mem_append, or_comm]
    exact or_congr_right List.mem_singleton.symm

/-- Entries behind the last one of a key leave its value alone. -/
theorem find?_ofList_of_last {later : List (κ × α)} {key : κ} {value : α}
    (last : key ∉ later.map Prod.fst) :
    (ofList (entries ++ (key, value) :: later)).find? key = some value := by
  induction later using List.reverseRecOn with
  | nil => rw [ofList_concat, find?_insert_self]
  | append_singleton later entry ih =>
    rw [List.map_append, List.mem_append, not_or] at last
    have other : key ≠ entry.1 := fun same => last.2 (List.mem_singleton.mpr same)
    rw [← List.cons_append, ← List.append_assoc, ofList_concat, find?_insert_of_ne _ other]
    exact ih last.1

/-- Entries with different keys may come in any order. -/
theorem ofList_eq_of_perm (same : entries.Perm others)
    (nodup : (entries.map Prod.fst).Nodup) : ofList entries = ofList others := by
  have nodupToo : (others.map Prod.fst).Nodup := (same.map Prod.fst).nodup_iff.mp nodup
  exact eq_of_perm ((ofList_perm nodup).trans (same.trans (ofList_perm nodupToo).symm))

end

end Dictionary

/-! ### Sources -/

theorem Test.name_of_buildFrom {config : Config} {name : String} {content : Except String Bytes}
    {test : Test} (built : buildFrom config name content = .ok test) : test.name = name := by
  cases content with
  | error cause => cases built
  | ok fixture =>
    obtain ⟨_, _, _, rfl⟩ := build_eq_ok built
    rfl

namespace Source

/-- Every source can be read and built. -/
def AllBuild (config : Config) (sources : List Source) : Prop :=
  ∀ source ∈ sources, ∃ test, Test.buildFrom config source.name source.content = .ok test

/-- The source is called `name`, and none behind it is. -/
def IsLast (sources : List Source) (name : String) (source : Source) : Prop :=
  source.name = name ∧
    ∃ earlier later, sources = earlier ++ source :: later ∧ name ∉ later.map Source.name

variable {config : Config} {sources : List Source} {entries : List (String × Test)}

theorem exists_isLast {name : String} (named : name ∈ sources.map Source.name) :
    ∃ source, IsLast sources name source := by
  induction sources using List.reverseRecOn with
  | nil => cases named
  | append_singleton sources last ih =>
    by_cases same : last.name = name
    · exact ⟨last, same, sources, [], rfl, List.not_mem_nil⟩
    · rw [List.map_append, List.mem_append] at named
      have before := named.resolve_right fun here => same (List.mem_singleton.mp here).symm
      obtain ⟨source, called, earlier, later, rfl, absent⟩ := ih before
      refine ⟨source, called, earlier, later ++ [last], ?_, ?_⟩
      · rw [List.append_assoc, List.cons_append]
      · rw [List.map_append, List.mem_append, not_or]
        exact ⟨absent, fun here => same (List.mem_singleton.mp here).symm⟩

theorem exists_of_allBuild (all : AllBuild config sources) :
    ∃ entries, List.Forall₂ (Builds config) sources entries := by
  induction sources with
  | nil => exact ⟨[], .nil⟩
  | cons source sources ih =>
    obtain ⟨⟨test, built⟩, others⟩ := List.forall_mem_cons.mp all
    obtain ⟨entries, builds⟩ := ih others
    exact ⟨(source.name, test) :: entries, .cons ⟨rfl, built⟩ builds⟩

theorem allBuild_of_builds (builds : List.Forall₂ (Builds config) sources entries) :
    AllBuild config sources := by
  induction builds with
  | nil => exact nofun
  | @cons source entry _ _ first _ ih =>
    exact List.forall_mem_cons.mpr ⟨⟨entry.2, first.test⟩, ih⟩

/-- The entries of sources divide as the sources do. -/
theorem exists_of_builds_append {earlier later : List Source} {source : Source}
    (builds : List.Forall₂ (Builds config) (earlier ++ source :: later) entries) :
    ∃ before test behind, entries = before ++ (source.name, test) :: behind ∧
      Test.buildFrom config source.name source.content = .ok test ∧
      List.Forall₂ (Builds config) later behind := by
  induction earlier generalizing entries with
  | nil =>
    obtain ⟨⟨name, test⟩, behind, here, others, rfl⟩ := List.forall₂_cons_left_iff.mp builds
    obtain rfl : name = source.name := here.name
    exact ⟨[], test, behind, rfl, here.test, others⟩
  | cons first earlier ih =>
    obtain ⟨entry, rest, _, others, rfl⟩ := List.forall₂_cons_left_iff.mp builds
    obtain ⟨before, test, behind, rfl, built, last⟩ := ih others
    exact ⟨entry :: before, test, behind, rfl, built, last⟩

/-- The test of the last source of a name is the one that is kept. -/
theorem IsLast.exists_test {name : String} {source : Source}
    (last : IsLast sources name source)
    (builds : List.Forall₂ (Builds config) sources entries) :
    ∃ test, Test.buildFrom config name source.content = .ok test ∧
      (Dictionary.ofList entries).find? name = some test := by
  obtain ⟨rfl, earlier, later, rfl, absent⟩ := last
  obtain ⟨before, test, behind, rfl, built, others⟩ := exists_of_builds_append builds
  rw [← names_of_builds others] at absent
  exact ⟨test, built, Dictionary.find?_ofList_of_last absent⟩

/-- Sources in another order have their entries in that order. -/
theorem exists_perm_of_builds {others : List Source} (same : others.Perm sources)
    (builds : List.Forall₂ (Builds config) sources entries) :
    ∃ moved, moved.Perm entries ∧ List.Forall₂ (Builds config) others moved := by
  induction same generalizing entries with
  | nil =>
    cases builds
    exact ⟨[], .refl _, .nil⟩
  | cons source _ ih =>
    obtain ⟨entry, rest, first, later, rfl⟩ := List.forall₂_cons_left_iff.mp builds
    obtain ⟨moved, perm, kept⟩ := ih later
    exact ⟨entry :: moved, perm.cons entry, .cons first kept⟩
  | swap second first sources =>
    obtain ⟨entry, _, one, behind, rfl⟩ := List.forall₂_cons_left_iff.mp builds
    obtain ⟨other, rest, two, later, rfl⟩ := List.forall₂_cons_left_iff.mp behind
    exact ⟨other :: entry :: rest, .swap .., .cons two (.cons one later)⟩
  | trans _ _ ihFirst ihSecond =>
    obtain ⟨middle, permSecond, kept⟩ := ihSecond builds
    obtain ⟨moved, permFirst, keptToo⟩ := ihFirst kept
    exact ⟨moved, permFirst.trans permSecond, keptToo⟩

end Source

namespace TestSet

variable {config : Config} {sources : List Source}

/-- A source that does not build keeps the set from being made: the first such one is told. -/
theorem exists_firstFailure {source : Source} {cause : BuildError} (member : source ∈ sources)
    (fails : Test.buildFrom config source.name source.content = .error cause) :
    ∃ failure, Source.FirstFailure config sources failure ∧
      ofSources config sources = .error failure := by
  cases made : ofSources config sources with
  | ok set =>
    obtain ⟨entries, builds, _⟩ := ofSources_eq_ok_iff.mp made
    obtain ⟨test, built⟩ := Source.allBuild_of_builds builds source member
    rw [built] at fails
    cases fails
  | error failure =>
    rcases ofSources_eq_error_iff.mp made with ⟨rfl, _⟩ | first
    · cases member
    · exact ⟨failure, first, rfl⟩

/-- A source that cannot be read is told with its message, if all in front of it build. -/
theorem ofSources_of_unreadable {earlier later : List Source} {source : Source} {message : String}
    (builds : Source.AllBuild config earlier) (unreadable : source.content = .error message) :
    ofSources config (earlier ++ source :: later) =
      .error (.build source.name (.unreadable source.name message)) := by
  have fails : Test.buildFrom config source.name source.content =
      .error (.unreadable source.name message) := by
    rw [unreadable]
    rfl
  exact ofSources_eq_error_iff.mpr (.inr ⟨earlier, source, later, _, rfl, builds, fails, rfl⟩)

/-- Sources that all build make up a set, if there are any. -/
theorem exists_of_allBuild (all : Source.AllBuild config sources) (some_source : sources ≠ []) :
    ∃ set entries, ofSources config sources = .ok set ∧
      List.Forall₂ (Source.Builds config) sources entries ∧ set.tests = .ofList entries := by
  obtain ⟨entries, builds⟩ := Source.exists_of_allBuild all
  have nonempty : (Dictionary.ofList entries).isEmpty = false := by
    refine Bool.eq_false_iff.mpr fun nothing => some_source ?_
    rw [Dictionary.isEmpty_ofList.mp nothing] at builds
    cases builds
    rfl
  exact ⟨⟨.ofList entries, nonempty⟩, entries,
    ofSources_eq_ok_iff.mpr ⟨entries, builds, rfl⟩, builds, rfl⟩

/-- **A set has the last source of each name, or there is none.** If some source cannot be read or
built, the first such one is told, whatever is behind it; one that cannot be read is told with the
message of its reader. Otherwise there is a set, unless there are
no sources. Its names are those of the sources, in increasing order of their bytes; under each of
them it has the test of the last source of that name, and the test is called so. Sources with
different names that all build come to the same set in any order. -/
theorem ofSources_outcome (config : Config) (sources : List Source) :
    (∀ source ∈ sources, ∀ cause,
      Test.buildFrom config source.name source.content = .error cause →
        ∃ failure, Source.FirstFailure config sources failure ∧
          ofSources config sources = .error failure) ∧
    (∀ earlier source later message, sources = earlier ++ source :: later →
      Source.AllBuild config earlier → source.content = .error message →
        ofSources config sources =
          .error (.build source.name (.unreadable source.name message))) ∧
    (sources = [] → ofSources config sources = .error .empty) ∧
    (Source.AllBuild config sources → sources ≠ [] →
      ∃ set, ofSources config sources = .ok set ∧
        (set.names.map Utf8.encode).Pairwise (· < ·) ∧
        (∀ name, name ∈ set.names ↔ name ∈ sources.map Source.name) ∧
        ∀ name test, set.find? name = some test ↔
          ∃ source, Source.IsLast sources name source ∧ test.name = name ∧
            Test.buildFrom config name source.content = .ok test) ∧
    (Source.AllBuild config sources → (sources.map Source.name).Nodup →
      ∀ others, others.Perm sources → ofSources config others = ofSources config sources) := by
  refine ⟨fun source member cause fails => exists_firstFailure member fails, ?_, ?_, ?_, ?_⟩
  · rintro earlier source later message rfl builds unreadable
    exact ofSources_of_unreadable builds unreadable
  · rintro rfl
    rfl
  · intro all some_source
    obtain ⟨set, entries, made, builds, tests⟩ := exists_of_allBuild all some_source
    have names (name : String) : name ∈ set.names ↔ name ∈ sources.map Source.name := by
      rw [TestSet.names, tests, Dictionary.mem_keys_ofList, Source.names_of_builds builds]
    refine ⟨set, made, set.tests.pairwise_encode_keys, names, fun name test => ?_⟩
    rw [find?, tests]
    constructor
    · intro found
      have named : name ∈ sources.map Source.name := by
        rw [← Source.names_of_builds builds, ← Dictionary.mem_keys_ofList]
        by_contra absent
        rw [Dictionary.find?_eq_none_iff.mpr absent] at found
        cases found
      obtain ⟨source, last⟩ := Source.exists_isLast named
      obtain ⟨kept, built, here⟩ := last.exists_test builds
      obtain rfl : kept = test := Option.some.inj (here.symm.trans found)
      exact ⟨source, last, Test.name_of_buildFrom built, built⟩
    · rintro ⟨source, last, _, built⟩
      obtain ⟨kept, again, here⟩ := last.exists_test builds
      rw [here, Except.ok.inj (again.symm.trans built)]
  · intro all nodup others same
    rcases eq_or_ne sources [] with rfl | some_source
    · rw [same.eq_nil]
    obtain ⟨set, entries, made, builds, tests⟩ := exists_of_allBuild all some_source
    obtain ⟨moved, perm, keeps⟩ := Source.exists_perm_of_builds same builds
    rw [← Source.names_of_builds builds] at nodup
    have nodupToo : (moved.map Prod.fst).Nodup := (perm.map Prod.fst).nodup_iff.mpr nodup
    rw [made]
    exact ofSources_eq_ok_iff.mpr
      ⟨moved, keeps, tests.trans (Dictionary.ofList_eq_of_perm perm nodupToo).symm⟩

/-- Two sources with one name, the earlier one of which is replaced, or cannot be read. -/
theorem ofSources_outcome_of_three_sources :
    let sources : List Source := [⟨"b", .ok (asciiBytes "SELECT 1")⟩,
      ⟨"a", .ok (asciiBytes "SELECT 2")⟩, ⟨"b", .ok (asciiBytes "SELECT 3")⟩]
    let broken : List Source := [⟨"a", .ok (asciiBytes "SELECT 2")⟩, ⟨"b", .error "gone"⟩,
      ⟨"b", .ok (asciiBytes "SELECT 3")⟩]
    Source.AllBuild {} sources ∧ sources ≠ [] ∧
      (∃ set, ofSources {} sources = .ok set ∧ "b" ∈ set.names ∧
        ∃ test, set.find? "b" = some test ∧ test.name = "b" ∧
          Test.buildFrom {} "b" (.ok (asciiBytes "SELECT 3")) = .ok test) ∧
      Source.AllBuild {} (broken.take 1) ∧
      ofSources {} broken = .error (.build "b" (.unreadable "b" "gone")) := by
  intro sources broken
  have builds (name content : String)
      (isOk : (Test.buildFrom {} name (.ok (asciiBytes content))).isOk = true) :
      ∃ test, Test.buildFrom {} name (.ok (asciiBytes content)) = .ok test := by
    cases built : Test.buildFrom {} name (.ok (asciiBytes content)) with
    | ok test => exact ⟨test, rfl⟩
    | error cause => rw [built] at isOk; cases isOk
  have first := builds "b" "SELECT 1" (by decide +kernel)
  have second := builds "a" "SELECT 2" (by decide +kernel)
  have third := builds "b" "SELECT 3" (by decide +kernel)
  have all : Source.AllBuild {} sources := by
    simp only [Source.AllBuild, sources, List.forall_mem_cons]
    exact ⟨first, second, third, nofun⟩
  have front : Source.AllBuild {} (broken.take 1) := by
    simp only [Source.AllBuild, broken, List.take_succ_cons, List.take_zero, List.forall_mem_cons]
    exact ⟨second, nofun⟩
  obtain ⟨_, _, _, making, _⟩ := ofSources_outcome {} sources
  obtain ⟨_, unreadable, _⟩ := ofSources_outcome {} broken
  obtain ⟨set, made, _, names, tests⟩ := making all (List.cons_ne_nil _ _)
  obtain ⟨test, built⟩ := third
  have last : Source.IsLast sources "b" ⟨"b", .ok (asciiBytes "SELECT 3")⟩ :=
    ⟨rfl, sources.take 2, [], rfl, List.not_mem_nil⟩
  have named := Test.name_of_buildFrom built
  refine ⟨all, List.cons_ne_nil _ _, ⟨set, made, (names "b").mpr (by decide), test, ?_, named,
    built⟩, front, unreadable _ _ _ _ rfl front rfl⟩
  exact (tests "b" test).mpr ⟨_, last, named, built⟩

end TestSet

end SqlFixture
