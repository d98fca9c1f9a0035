import SqlFixture.Fixture

/-
**What tests run against.**

A transaction answers two kinds of call, and each answer may depend on all calls before it. It is
given by a state and by what a call answers in a state; nothing else is assumed of it.

* `Transaction`: the answers, for states of any type;
* `Call`: a call as a log shows it;
* `Row`, `readRows`: the items that a query yields, read until the first error.
-/

namespace SqlFixture

/-- An item of a query's answer: a row as text, or the message of an error. -/
abbrev Row := Except String String

/-- The answers of a transaction whose state has type `σ`. -/
structure Transaction (σ : Type u) where
  execute : String → σ → Except String Unit × σ
  /-- Executes a query; a failure has a message, a success yields rows. -/
  query : String → σ → Except String (List Row) × σ

/-- One call of a transaction. -/
inductive Call where
  | execute (sql : String)
  /-- A query was executed and `pulled` items of its answer were read. -/
  | query (sql : String) (pulled : Nat)
deriving Repr, DecidableEq

/-- What reading the rows of a query comes to. -/
structure Reading where
  values : Except String (List String)
  /-- The number of items that were read. -/
  pulled : Nat

/-- Reads rows up to the first error, which is read as well. -/
def readRows : List Row → Reading
  | [] => ⟨.ok [], 0⟩
  | .error cause :: _ => ⟨.error cause, 1⟩
  | .ok value :: rows =>
    let later := readRows rows
    ⟨later.values.map (value :: ·), later.pulled + 1⟩

theorem readRows_ok (values : List String) :
    readRows (values.map .ok) = ⟨.ok values, values.length⟩ := by
  induction values with
  | nil => rfl
  | cons value values ih => simp [readRows, ih, Except.map]

theorem readRows_error (values : List String) (cause : String) (rows : List Row) :
    readRows (values.map .ok ++ .error cause :: rows) = ⟨.error cause, values.length + 1⟩ := by
  induction values with
  | nil => rfl
  | cons value values ih => simp [readRows, ih, Except.map]

end SqlFixture
