/-
**What a statement does when its test runs.**

* `Action.exec`: the statement runs and has to succeed;
* `Action.assert`: a defined query runs and its rows have to read as expected;
* `Action.except`: the statement runs and has to fail with a fitting message.
-/

namespace SqlFixture

/-- The check that a statement stands for. -/
inductive Action where
  /-- Runs `sql` as it is written, comments included. -/
  | exec (sql : String)
  /-- Runs the query defined under `key` and compares its rows with `expected`. -/
  | assert (key query expected : String)
  /-- Runs `query`, which has to fail with a message that contains `substring`. -/
  | except (query substring : String)
deriving Repr, DecidableEq, Inhabited

/-- The name of an action's kind in listings. -/
def Action.kind : Action → String
  | .exec .. => "exec"
  | .assert .. => "assert"
  | .except .. => "except"

end SqlFixture
