import SqlFixture.Build
import SqlFixture.Glob.Pattern
import SqlFixture.Run

/-
**Sets of tests, by name.**

A set holds at least one test under each of its names. It is built from named sources all or
nothing: the first source that fails decides, and of sources with one name the last one stays.

* `TestSet.ofSources`: the set of a list of sources;
* `TestSet.runEach`: each test on a transaction of its own;
* `SetError`: why there is no set.
-/

namespace SqlFixture

/-- A named fixture, where reading it may fail with a message. -/
structure Source where
  name : String
  content : Except String Bytes

/-- Why there is no set. -/
inductive SetError where
  | empty
  | build (name : String) (cause : BuildError)
  | pattern (text : String) (fault : Glob.Fault)
deriving Repr, DecidableEq

namespace SetError

/-- One line for people. -/
def message : SetError → String
  | empty => "test set is empty"
  | build name cause => s!"test {Quoted.quote name}: {cause.message}"
  | pattern text fault => s!"invalid glob pattern {Quoted.quote text}: {fault.message}"

/-- The messages of what caused the failure. -/
def causes : SetError → List String
  | empty | pattern .. => []
  | build _ cause => cause.message :: cause.causes

/-- The code of a failure, and the diagnostic of the build that failed. -/
def diagnostic : SetError → Diagnostic
  | empty => .report "sqltest::set::empty" none [] none
  | build _ cause => .report "sqltest::set::build" none [] (some cause.diagnostic)
  | pattern .. => .report "sqltest::set::pattern" none [] none

end SetError

/-- Tests under their names; at least one. -/
structure TestSet where
  tests : Dictionary String Test
  nonempty : tests.isEmpty = false

namespace TestSet

/-- Builds sources in order onto the tests built before; the first failure ends it. -/
def buildOnto (config : Config) (built : Dictionary String Test) :
    List Source → Except SetError (Dictionary String Test)
  | [] => .ok built
  | source :: later =>
    match Test.buildFrom config source.name source.content with
    | .error cause => .error (.build source.name cause)
    | .ok test => buildOnto config (built.insert source.name test) later

/-- The set of all sources. -/
def ofSources (config : Config) (sources : List Source) : Except SetError TestSet :=
  match buildOnto config .empty sources with
  | .error failure => .error failure
  | .ok tests =>
    if hempty : tests.isEmpty = true then .error .empty
    else .ok ⟨tests, Bool.eq_false_iff.mpr hempty⟩

/-- The names, in increasing order. -/
def names (set : TestSet) : List String := set.tests.keys

/-- The number of tests. -/
def size (set : TestSet) : Nat := set.tests.size

/-- The test called `name`. -/
def find? (set : TestSet) (name : String) : Option Test := set.tests.find? name

/-- The tests with their names, in increasing order of the names. -/
def toList (set : TestSet) : List (String × Test) := set.tests.entries

/-- Runs each test of a list on the transaction that `start` begins for it. What `start` does may
depend on a state of its own, which is passed from one test to the next. -/
def runEntries (transaction : Transaction σ) (start : String → ω → σ × ω) :
    List (String × Test) → ω → List (String × Run σ) × ω
  | [], world => ([], world)
  | (name, test) :: later, world =>
    let (state, next) := start name world
    let (runs, last) := runEntries transaction start later next
    ((name, test.run transaction state) :: runs, last)

/-- Runs each test, in increasing order of the names. -/
def runEach (transaction : Transaction σ) (start : String → ω → σ × ω) (set : TestSet)
    (world : ω) : List (String × Run σ) × ω :=
  runEntries transaction start set.toList world

end TestSet

end SqlFixture
