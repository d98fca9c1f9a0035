import SqlFixture.Proofs.ByteOrder
import SqlFixture.Proofs.NamedSources

/-
**The tests of a set run apart from each other.**

A transaction is begun for each name of the set, in order, and what begins them may remember those
that it began before. Apart from that a test meets nothing of the others: its run is the one on its
own transaction. So a run stays the same, with its calls and its result, whatever becomes of the
other tests and of the transactions that they meet.

* `Begins`: names for which transactions are begun one after the other;
* `TestSet.mem_runEntries_iff`: the runs of a list of tests, told one by one;
* `TestSet.withTest`: a set with another test under one of its names;
* `TestSet.runEach_isolates`: each run by itself, and two sets compared.
-/

namespace SqlFixture

/-! ### Transactions begun in order -/

section

variable {σ : Type u} {ω : Type v} (start : String → ω → σ × ω)

/-- Names for which a transaction is begun one after the other, each name with the state of its
transaction, and what `start` remembers before and behind them. -/
inductive Begins : ω → List String → List (String × σ) → ω → Prop
  | nil (world : ω) : Begins world [] [] world
  | cons {world between last : ω} {name : String} {later : List String} {state : σ}
      {states : List (String × σ)} (begun : start name world = (state, between))
      (others : Begins between later states last) :
      Begins world (name :: later) ((name, state) :: states) last

variable {start} {world last : ω} {names : List String} {states : List (String × σ)}

theorem Begins.names_eq (begins : Begins start world names states last) :
    states.map Prod.fst = names := by
  induction begins with
  | nil => rfl
  | cons _ _ ih => rw [List.map_cons, ih]

variable (start) (world) (names) in
theorem exists_begins : ∃ states last, Begins start world names states last := by
  induction names generalizing world with
  | nil => exact ⟨[], world, .nil world⟩
  | cons name later ih =>
    rcases begun : start name world with ⟨state, between⟩
    obtain ⟨states, last, others⟩ := ih between
    exact ⟨(name, state) :: states, last, .cons begun others⟩

/-- What is begun for names is determined by them. -/
theorem Begins.unique {again : List (String × σ)} {end_ : ω}
    (begins : Begins start world names states last) (other : Begins start world names again end_) :
    again = states ∧ end_ = last := by
  induction begins generalizing again with
  | nil =>
    cases other
    exact ⟨rfl, rfl⟩
  | cons begun _ ih =>
    cases other with
    | cons begunToo others =>
      obtain ⟨rfl, rfl⟩ := Prod.mk.inj (begun.symm.trans begunToo)
      obtain ⟨rfl, rfl⟩ := ih others
      exact ⟨rfl, rfl⟩

end

namespace TestSet

section

variable {σ : Type u} {ω : Type v} (transaction : Transaction σ) (start : String → ω → σ × ω)

/-! ### The runs of a list of tests -/

variable {start} {world last : ω} {entries : List (String × Test)} {states : List (String × σ)}

/-- Running tests begins a transaction for each of their names, and nothing else. -/
theorem runEntries_last (begins : Begins start world (entries.map Prod.fst) states last) :
    (runEntries transaction start entries world).2 = last := by
  induction entries generalizing world states with
  | nil =>
    cases begins
    rfl
  | cons entry entries ih =>
    cases begins with
    | cons begun others =>
      simp only [runEntries, begun]
      exact ih others

variable (start) (world) (entries) in
theorem map_runEntries :
    (runEntries transaction start entries world).1.map Prod.fst = entries.map Prod.fst := by
  induction entries generalizing world with
  | nil => rfl
  | cons entry entries ih =>
    simp only [runEntries, List.map_cons]
    rw [ih]

/-- The runs are those of the tests, each on the transaction that was begun for its name. -/
theorem mem_runEntries_iff (begins : Begins start world (entries.map Prod.fst) states last)
    (nodup : (entries.map Prod.fst).Nodup) {name : String} {run : Run σ} :
    (name, run) ∈ (runEntries transaction start entries world).1 ↔
      ∃ test state, (name, test) ∈ entries ∧ (name, state) ∈ states ∧
        run = test.run transaction state := by
  induction entries generalizing world states with
  | nil => exact ⟨nofun, fun ⟨_, _, member, _⟩ => nomatch member⟩
  | cons entry entries ih =>
    obtain ⟨fresh, nodup⟩ := List.nodup_cons.mp nodup
    cases begins with
    | @cons _ between _ _ _ state states begun others =>
      -- No later test and no later transaction has the name of the first one.
      have noTest (test : Test) (later : (entry.1, test) ∈ entries) : False :=
        fresh (List.mem_map.mpr ⟨_, later, rfl⟩)
      have noState (other : σ) (later : (entry.1, other) ∈ states) : False :=
        fresh (others.names_eq ▸ List.mem_map.mpr ⟨_, later, rfl⟩)
      simp only [runEntries, begun, List.mem_cons, ih others nodup]
      constructor
      · rintro (same | ⟨test, other, member, began, rfl⟩)
        · obtain ⟨rfl, rfl⟩ := Prod.mk.inj same
          exact ⟨entry.2, state, .inl rfl, .inl rfl, rfl⟩
        · exact ⟨test, other, .inr member, .inr began, rfl⟩
      · rintro ⟨test, other, member, began, rfl⟩
        rcases member with rfl | member
        · rcases began with same | began
          · obtain ⟨_, rfl⟩ := Prod.mk.inj same
            exact .inl rfl
          · exact (noState other began).elim
        · rcases began with same | began
          · obtain ⟨rfl, _⟩ := Prod.mk.inj same
            exact (noTest test member).elim
          · exact .inr ⟨test, other, member, began, rfl⟩

end

/-! ### Whole sets -/

/-- The set with another test under a name. -/
def withTest (set : TestSet) (name : String) (test : Test) : TestSet :=
  ⟨set.tests.insert name test, Dictionary.isEmpty_insert set.tests name test⟩

section

variable {σ : Type u} {ω : Type v} (transaction : Transaction σ) (start : String → ω → σ × ω)
  (set : TestSet) (world : ω)

variable {start} {set} {world} in
/-- The runs of a set, each told from its own test and its own transaction. -/
theorem mem_runEach_iff {states : List (String × σ)} {last : ω}
    (begins : Begins start world set.names states last) {name : String} {run : Run σ} :
    (name, run) ∈ (set.runEach transaction start world).1 ↔
      ∃ test state, set.find? name = some test ∧ (name, state) ∈ states ∧
        run = test.run transaction state := by
  have told (test : Test) : set.find? name = some test ↔ (name, test) ∈ set.toList :=
    Dictionary.find?_eq_some_iff
  simp only [told]
  exact mem_runEntries_iff transaction begins set.tests.nodup_keys

/-- **The tests of a set run apart from each other.** Running a set begins one transaction for each
name, in increasing order, and comes to one run for each name: that of the test of this name on the
transaction that was begun for it. If two sets, run in whatever worlds, have the same test under a
name and begin the same transaction for it, they have the same run under that name, with its result
and its calls. So another test under one name changes no run under another. -/
theorem runEach_isolates :
    (set.names.map Utf8.encode).Pairwise (· < ·) ∧
    (∃ states last, Begins start world set.names states last ∧
      (set.runEach transaction start world).2 = last ∧
      (set.runEach transaction start world).1.map Prod.fst = set.names ∧
      ∀ name run, (name, run) ∈ (set.runEach transaction start world).1 ↔
        ∃ test state, set.find? name = some test ∧ (name, state) ∈ states ∧
          run = test.run transaction state) ∧
    (∀ (other : TestSet) (otherStart : String → ω → σ × ω) (otherWorld last otherLast : ω)
      (states otherStates : List (String × σ)),
      Begins start world set.names states last →
      Begins otherStart otherWorld other.names otherStates otherLast →
      ∀ name, set.find? name = other.find? name →
        (∀ state, (name, state) ∈ states ↔ (name, state) ∈ otherStates) →
        ∀ run, (name, run) ∈ (set.runEach transaction start world).1 ↔
          (name, run) ∈ (other.runEach transaction otherStart otherWorld).1) ∧
    ∀ replaced ∈ set.names, ∀ (test : Test) (name : String), name ≠ replaced →
      ∀ run, (name, run) ∈ ((set.withTest replaced test).runEach transaction start world).1 ↔
        (name, run) ∈ (set.runEach transaction start world).1 := by
  obtain ⟨states, last, begins⟩ := exists_begins start world set.names
  have compared (other : TestSet) {otherStart : String → ω → σ × ω} {otherWorld otherLast : ω}
      {otherStates : List (String × σ)}
      (otherBegins : Begins otherStart otherWorld other.names otherStates otherLast)
      {name : String} (sameTest : set.find? name = other.find? name)
      (sameState : ∀ state, (name, state) ∈ states ↔ (name, state) ∈ otherStates) (run : Run σ) :
      (name, run) ∈ (set.runEach transaction start world).1 ↔
        (name, run) ∈ (other.runEach transaction otherStart otherWorld).1 := by
    rw [mem_runEach_iff transaction begins, mem_runEach_iff transaction otherBegins]
    simp only [sameTest, sameState]
  refine ⟨set.tests.pairwise_encode_keys, ⟨states, last, begins, ?_, ?_, ?_⟩, ?_, ?_⟩
  · exact runEntries_last transaction begins
  · exact map_runEntries transaction start world set.toList
  · exact fun name run => mem_runEach_iff transaction begins
  · intro other otherStart otherWorld final otherLast begun otherStates again otherBegins name
      sameTest sameState
    obtain ⟨rfl, rfl⟩ := begins.unique again
    exact compared other otherBegins sameTest sameState
  · intro replaced bound test name different run
    have names : (set.withTest replaced test).names = set.names :=
      Dictionary.keys_insert_of_mem bound test
    have others : set.find? name = (set.withTest replaced test).find? name :=
      (Dictionary.find?_insert_of_ne set.tests different test).symm
    exact (compared _ (names ▸ begins) others (fun _ => Iff.rfl) run).symm

end

end TestSet

end SqlFixture
