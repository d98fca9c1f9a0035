import Mathlib.Data.List.Forall2
import Mathlib.Data.List.Induction
import SqlFixture.TestSet

/-
**Sets from named sources.**

Sources are built in order. The first one that does not build decides what is told; if there is
none, the set has the tests of all sources, and of two sources with one name it has the later one.

* `Dictionary.ofList_concat`, `ofList_perm`: inserting entries one after the other;
* `Source.Builds`: an entry with the test of a source;
* `TestSet.buildOnto_eq_ok_iff`, `buildOnto_eq_error_iff`: what building in order comes to;
* `TestSet.ofSources_eq_ok_iff`, `ofSources_eq_error_iff`: the same of whole sets.
-/

namespace SqlFixture

namespace Dictionary

variable {κ : Type u} {α : Type v} [LT κ] [DecidableLT κ] [KeyOrder κ]

theorem ofList_concat (entries : List (κ × α)) (key : κ) (value : α) :
    ofList (entries ++ [(key, value)]) = (ofList entries).insert key value := by
  unfold ofList
  rw [List.foldl_append]
  rfl

theorem isEmpty_insert (dictionary : Dictionary κ α) (key : κ) (value : α) :
    (dictionary.insert key value).isEmpty = false := by
  show (insertEntry key value dictionary.entries).isEmpty = false
  cases dictionary.entries with
  | nil => rfl
  | cons head rest =>
    rw [insertEntry]
    split
    · rfl
    · split <;> rfl

theorem mem_keys_insert [DecidableEq κ] {dictionary : Dictionary κ α} {key other : κ} {value : α} :
    other ∈ (dictionary.insert key value).keys ↔ other = key ∨ other ∈ dictionary.keys := by
  rw [← not_iff_not, not_or, ← find?_eq_none_iff, ← find?_eq_none_iff]
  by_cases same : other = key
  · subst same
    rw [find?_insert_self]
    exact ⟨nofun, fun absent => absurd rfl absent.1⟩
  · rw [find?_insert_of_ne dictionary same]
    exact ⟨fun absent => ⟨same, absent⟩, And.right⟩

/-- Another value under a key leaves the keys as they are. -/
theorem keys_insert_of_mem [DecidableEq κ] {dictionary : Dictionary κ α} {key : κ}
    (bound : key ∈ dictionary.keys) (value : α) :
    (dictionary.insert key value).keys = dictionary.keys := by
  have same : (dictionary.insert key value).keys.Perm dictionary.keys := by
    refine (List.perm_ext_iff_of_nodup (nodup_keys _) (nodup_keys _)).mpr fun other => ?_
    refine mem_keys_insert.trans ?_
    exact ⟨fun either => either.elim (fun equal => equal ▸ bound) id, .inr⟩
  refine same.eq_of_pairwise (fun one other _ _ below above => ?_)
    (List.pairwise_map.mpr (dictionary.insert key value).sorted)
    (List.pairwise_map.mpr dictionary.sorted)
  exact absurd (KeyOrder.trans below above) (KeyOrder.irrefl one)

theorem isEmpty_ofList {entries : List (κ × α)} :
    (ofList entries).isEmpty = true ↔ entries = [] := by
  induction entries using List.reverseRecOn with
  | nil => exact ⟨fun _ => rfl, fun _ => rfl⟩
  | append_singleton entries entry =>
    rw [ofList_concat, isEmpty_insert]
    exact ⟨nofun, fun nothing => absurd nothing (List.append_ne_nil_of_right_ne_nil _ nofun)⟩

/-- Entries with different keys are all kept. -/
theorem ofList_perm [DecidableEq κ] {entries : List (κ × α)}
    (nodup : (entries.map Prod.fst).Nodup) : (ofList entries).entries.Perm entries := by
  induction entries using List.reverseRecOn with
  | nil => exact .refl _
  | append_singleton entries entry ih =>
    rw [List.map_append, List.nodup_append] at nodup
    obtain ⟨others, _, apart⟩ := nodup
    have kept := ih others
    have fresh : (ofList entries).find? entry.1 = none := by
      refine find?_eq_none_iff.mpr fun bound => ?_
      exact apart _ ((kept.map Prod.fst).mem_iff.mp bound) _ List.mem_cons_self rfl
    rw [ofList_concat]
    exact (insertEntry_perm fresh entry.2).trans
      ((kept.cons entry).trans (List.perm_append_singleton entry entries).symm)

end Dictionary

/-- An entry with the test of a source under the name of the source. -/
structure Source.Builds (config : Config) (source : Source) (entry : String × Test) : Prop where
  name : entry.1 = source.name
  test : Test.buildFrom config source.name source.content = .ok entry.2

theorem Source.names_of_builds {config : Config} {sources : List Source}
    {entries : List (String × Test)} (builds : List.Forall₂ (Builds config) sources entries) :
    entries.map Prod.fst = sources.map Source.name := by
  induction builds with
  | nil => rfl
  | cons first _ ih => rw [List.map_cons, List.map_cons, first.name, ih]

/-- The failure that the first source that does not build comes to, if there is one. -/
def Source.FirstFailure (config : Config) (sources : List Source) (failure : SetError) : Prop :=
  ∃ earlier source later cause, sources = earlier ++ source :: later ∧
    (∀ other ∈ earlier, ∃ test, Test.buildFrom config other.name other.content = .ok test) ∧
    Test.buildFrom config source.name source.content = .error cause ∧
    failure = .build source.name cause

theorem Source.ne_nil_of_firstFailure {config : Config} {sources : List Source}
    {failure : SetError} (first : FirstFailure config sources failure) : sources ≠ [] := by
  obtain ⟨earlier, source, later, _, rfl, _⟩ := first
  exact List.append_ne_nil_of_right_ne_nil _ (List.cons_ne_nil _ _)

/-- Behind a source that builds, the first failure is that of the later ones. -/
theorem Source.firstFailure_cons_iff {config : Config} {first : Source} {sources : List Source}
    {failure : SetError} {test : Test}
    (built : Test.buildFrom config first.name first.content = .ok test) :
    FirstFailure config (first :: sources) failure ↔ FirstFailure config sources failure := by
  constructor
  · rintro ⟨earlier, source, later, cause, divided, builds, fails, told⟩
    rcases List.cons_eq_append_iff.mp divided with ⟨rfl, same⟩ | ⟨earlier, rfl, rfl⟩
    · obtain ⟨rfl, rfl⟩ := List.cons.inj same
      rw [built] at fails
      cases fails
    · exact ⟨earlier, source, later, cause, rfl, (List.forall_mem_cons.mp builds).2, fails, told⟩
  · rintro ⟨earlier, source, later, cause, rfl, builds, fails, told⟩
    exact ⟨first :: earlier, source, later, cause, rfl,
      List.forall_mem_cons.mpr ⟨⟨test, built⟩, builds⟩, fails, told⟩

namespace TestSet

variable {config : Config} {sources : List Source}

/-- Sources come to tests exactly if each one builds, and then to the entries of all. -/
theorem buildOnto_eq_ok_iff {done : List (String × Test)} {tests : Dictionary String Test} :
    buildOnto config (.ofList done) sources = .ok tests ↔
      ∃ entries, List.Forall₂ (Source.Builds config) sources entries ∧
        tests = .ofList (done ++ entries) := by
  induction sources generalizing done with
  | nil =>
    constructor
    · intro same
      exact ⟨[], .nil, by rw [List.append_nil, ← Except.ok.inj same]⟩
    · rintro ⟨_, ⟨⟩, rfl⟩
      rw [List.append_nil]
      rfl
  | cons source sources ih =>
    rw [buildOnto]
    cases built : Test.buildFrom config source.name source.content with
    | error cause =>
      refine ⟨nofun, ?_⟩
      rintro ⟨entries, builds, _⟩
      obtain ⟨_, _, first, _⟩ := List.forall₂_cons_left_iff.mp builds
      rw [first.test] at built
      cases built
    | ok test =>
      show buildOnto config ((Dictionary.ofList done).insert source.name test) sources = _ ↔ _
      rw [← Dictionary.ofList_concat, ih]
      constructor
      · rintro ⟨entries, builds, rfl⟩
        refine ⟨(source.name, test) :: entries, .cons ⟨rfl, built⟩ builds, ?_⟩
        rw [List.append_assoc, List.singleton_append]
      · rintro ⟨_, builds, rfl⟩
        obtain ⟨⟨name, again⟩, entries, first, later, rfl⟩ := List.forall₂_cons_left_iff.mp builds
        obtain rfl : name = source.name := first.name
        obtain rfl : again = test := Except.ok.inj (first.test.symm.trans built)
        exact ⟨entries, later, by rw [List.append_assoc, List.singleton_append]⟩

/-- Building fails exactly with the first source that does not build. -/
theorem buildOnto_eq_error_iff {built : Dictionary String Test} {failure : SetError} :
    buildOnto config built sources = .error failure ↔
      Source.FirstFailure config sources failure := by
  induction sources generalizing built with
  | nil => exact ⟨nofun, fun first => absurd rfl (Source.ne_nil_of_firstFailure first)⟩
  | cons first sources ih =>
    rw [buildOnto]
    cases here : Test.buildFrom config first.name first.content with
    | error cause =>
      constructor
      · intro same
        exact ⟨[], first, sources, cause, rfl, nofun, here, (Except.error.inj same).symm⟩
      · rintro ⟨earlier, source, later, other, divided, builds, fails, rfl⟩
        rcases List.cons_eq_append_iff.mp divided with ⟨rfl, same⟩ | ⟨earlier, rfl, _⟩
        · obtain ⟨rfl, rfl⟩ := List.cons.inj same
          rw [Except.error.inj (here.symm.trans fails)]
        · obtain ⟨test, accepted⟩ := builds first List.mem_cons_self
          rw [accepted] at here
          cases here
    | ok test =>
      show buildOnto config (built.insert first.name test) sources = _ ↔ _
      rw [ih, Source.firstFailure_cons_iff here]

section

variable {tests : Dictionary String Test}

theorem ofSources_of_error {failure : SetError}
    (failed : buildOnto config .empty sources = .error failure) :
    ofSources config sources = .error failure := by
  unfold ofSources
  rw [failed]

theorem ofSources_of_nonempty (built : buildOnto config .empty sources = .ok tests)
    (nonempty : tests.isEmpty = false) : ofSources config sources = .ok ⟨tests, nonempty⟩ := by
  unfold ofSources
  rw [built]
  exact dif_neg (Bool.eq_false_iff.mp nonempty)

theorem ofSources_of_isEmpty (built : buildOnto config .empty sources = .ok tests)
    (nothing : tests.isEmpty = true) : ofSources config sources = .error .empty := by
  unfold ofSources
  rw [built]
  exact dif_pos nothing

end

/-- The tests of a set are those of its sources, each of which builds. -/
theorem ofSources_eq_ok_iff {set : TestSet} :
    ofSources config sources = .ok set ↔
      ∃ entries, List.Forall₂ (Source.Builds config) sources entries ∧
        set.tests = .ofList entries := by
  have onto : buildOnto config .empty sources = .ok set.tests ↔ _ :=
    @buildOnto_eq_ok_iff config sources [] set.tests
  refine Iff.trans ⟨fun made => ?_, fun built => ofSources_of_nonempty built set.nonempty⟩ onto
  cases built : buildOnto config .empty sources with
  | error failure =>
    rw [ofSources_of_error built] at made
    cases made
  | ok tests =>
    cases nothing : tests.isEmpty with
    | true =>
      rw [ofSources_of_isEmpty built nothing] at made
      cases made
    | false =>
      rw [ofSources_of_nonempty built nothing] at made
      cases made
      rfl

/-- There is no set exactly if there are no sources or one does not build. -/
theorem ofSources_eq_error_iff {failure : SetError} :
    ofSources config sources = .error failure ↔
      sources = [] ∧ failure = .empty ∨ Source.FirstFailure config sources failure := by
  have first : buildOnto config .empty sources = .error failure ↔
    Source.FirstFailure config sources failure := buildOnto_eq_error_iff
  rw [← first]
  constructor
  · intro failed
    cases built : buildOnto config .empty sources with
    | error other =>
      rw [ofSources_of_error built] at failed
      exact .inr (congrArg Except.error (Except.error.inj failed))
    | ok tests =>
      cases nothing : tests.isEmpty with
      | true =>
        rw [ofSources_of_isEmpty built nothing] at failed
        obtain ⟨entries, builds, rfl⟩ := (@buildOnto_eq_ok_iff config sources [] tests).mp built
        obtain rfl : entries = [] := Dictionary.isEmpty_ofList.mp nothing
        cases builds
        exact .inl ⟨rfl, (Except.error.inj failed).symm⟩
      | false =>
        rw [ofSources_of_nonempty built nothing] at failed
        cases failed
  · rintro (⟨rfl, rfl⟩ | failed)
    · rfl
    · exact ofSources_of_error failed

end TestSet

end SqlFixture
