import SqlFixture.Transaction

/-
**Running a test.**

Each statement makes one call of the transaction and passes or fails by its answer. A test runs its
statements in order and ends with the first one that fails.

* `Action.perform`: one statement's call and verdict;
* `Test.run`: verdict, calls and final state of a whole test;
* `ActionError`, `RunError`: what fails, and where.
-/

namespace SqlFixture

/-- Why a statement fails. -/
inductive ActionError where
  | execFailed (cause : String)
  | queryFailed (cause : String)
  | rowFailed (cause : String)
  | assertMismatch (actual expected : String)
  /-- The statement failed with another message than expected. -/
  | exceptMismatch (expected actual : String)
  | exceptSucceeded (expected : String)
deriving Repr, DecidableEq

namespace ActionError

/-- One line for people. -/
def message : ActionError → String
  | execFailed cause => "Exec(): " ++ cause
  | queryFailed cause => "Query(): " ++ cause
  | rowFailed cause => "reading row: " ++ cause
  | assertMismatch actual expected =>
    s!"defined query returns {Quoted.quote actual}, want {Quoted.quote expected}"
  | exceptMismatch expected actual =>
    s!"expected error contained {Quoted.quote expected}, but got {Quoted.quote actual}"
  | exceptSucceeded expected =>
    s!"expected an error containing {Quoted.quote expected} but statement succeeded"

/-- The messages of what caused the failure. -/
def causes : ActionError → List String
  | execFailed cause | queryFailed cause | rowFailed cause => [cause]
  | _ => []

end ActionError

/-- The first statement of a test that fails. -/
structure RunError where
  left : Position
  right : Position
  statement : String
  cause : ActionError
deriving Repr, DecidableEq

namespace RunError

/-- Where the statement stands, why it fails, and how it reads. -/
def message (failure : RunError) : String :=
  s!"Query on lines {failure.left.displayLine}:{failure.right.displayLine} at bytes " ++
    s!"{failure.left.index}:{failure.right.index} fails: {failure.cause.message}.\n" ++
    s!"Query source: {failure.statement}"

/-- The messages of what caused the failure. -/
def causes (failure : RunError) : List String := failure.cause.message :: failure.cause.causes

/-- The code under which tools know the failure. -/
def diagnostic (_ : RunError) : Diagnostic := .report "sqltest::run::failed" none [] none

end RunError

/-! ### One statement -/

/-- What performing an action comes to. -/
structure Attempt (σ : Type u) where
  result : Except ActionError Unit
  call : Call
  state : σ

/-- Whether `fragment` stands somewhere in the text, without a gap. -/
def containsFragment (fragment : List Char) : (text : List Char) → Bool
  | [] => fragment.isEmpty
  | first :: rest => fragment.isPrefixOf (first :: rest) || containsFragment fragment rest

/-- The verdict on rows that were read, given the text that is expected. -/
def compareRows (expected : String) : Except String (List String) → Except ActionError Unit
  | .error cause => .error (.rowFailed cause)
  | .ok values =>
    let actual := " ".intercalate values
    if actual = expected then .ok () else .error (.assertMismatch actual expected)

/-- The verdict on a call that has to fail, given the text that its message has to contain. -/
def compareFailure (substring : String) : Except String Unit → Except ActionError Unit
  | .ok () => .error (.exceptSucceeded substring)
  | .error message =>
    if containsFragment substring.toList message.toList then .ok ()
    else .error (.exceptMismatch substring message)

/-- Makes the call of an action and judges its answer. -/
def Action.perform (transaction : Transaction σ) (state : σ) : Action → Attempt σ
  | .exec sql =>
    let (answer, next) := transaction.execute sql state
    ⟨answer.mapError .execFailed, .execute sql, next⟩
  | .assert _ query expected =>
    match transaction.query query state with
    | (.error cause, next) => ⟨.error (.queryFailed cause), .query query 0, next⟩
    | (.ok rows, next) =>
      let reading := readRows rows
      ⟨compareRows expected reading.values, .query query reading.pulled, next⟩
  | .except query substring =>
    let (answer, next) := transaction.execute query state
    ⟨compareFailure substring answer, .execute query, next⟩

/-! ### A whole test -/

/-- What running a test comes to. -/
structure Run (σ : Type u) where
  result : Except RunError Unit
  calls : List Call
  state : σ

/-- Runs statements until one fails. -/
def runStatements (transaction : Transaction σ) : List Statement → σ → Run σ
  | [], state => ⟨.ok (), [], state⟩
  | statement :: later, state =>
    let attempt := statement.action.perform transaction state
    match attempt.result with
    | .error cause =>
      ⟨.error ⟨statement.left, statement.right, statement.text, cause⟩, [attempt.call],
        attempt.state⟩
    | .ok () =>
      let run := runStatements transaction later attempt.state
      { run with calls := attempt.call :: run.calls }

/-- Runs a test from a state of the transaction. -/
def Test.run (transaction : Transaction σ) (test : Test) (state : σ) : Run σ :=
  runStatements transaction test.statements state

end SqlFixture
