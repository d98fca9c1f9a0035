import SqlFixture.Action
import SqlFixture.Dictionary
import SqlFixture.Position
import SqlFixture.StatementError

/-
**Built tests, and why a fixture does not build.**

A test is what a fixture amounts to: the queries it defines, and its acting statements in the order
in which they stand. Each statement keeps its place and its bytes.

* `Test`, `Statement`: the results;
* `BuildError`: the four ways in which there is no result;
* `BuildError.message`, `causes`, `diagnostic`: how a failure is told.
-/

namespace SqlFixture

/-- A statement that acts at run time. -/
structure Statement where
  left : Position
  /-- The place behind its last byte. -/
  right : Position
  /-- Its bytes, leading comments included. -/
  source : Bytes
  action : Action
deriving Repr, DecidableEq

/-- The bytes of a statement as text. -/
def Statement.text (statement : Statement) : String := Utf8.lossy statement.source

/-- A built fixture. -/
structure Test where
  name : String
  context : Context
  statements : List Statement
deriving DecidableEq

/-- The name of a fixture that is given none. -/
def Test.unnamed : String := "<fixture>"

/-- A failure to build the fixture called `name`. -/
inductive BuildError where
  | unreadable (name cause : String)
  /-- The statement from `left` to `right` is refused; `fixture` is the text of the whole. -/
  | refused (name : String) (left right : Position) (cause : StatementError) (fixture : String)
  | empty (name : String)
  /-- More than `limit` steps were needed; the next one would begin at `position`. -/
  | iterationLimit (name : String) (limit : Nat) (position : Position)
deriving Repr, DecidableEq

namespace BuildError

/-- Whether the failure points at the engine and not at the fixture. -/
def isInternal : BuildError → Bool
  | iterationLimit .. => true
  | _ => false

/-- The cause for which a statement is refused. -/
def cause? : BuildError → Option StatementError
  | refused _ _ _ cause _ => some cause
  | _ => none

/-- The byte range that is marked in the text of the fixture. -/
def span? : BuildError → Option (Nat × Nat)
  | refused _ left right _ _ => some (Position.span left right)
  | _ => none

/-- One line for people. -/
def message : BuildError → String
  | unreadable name _ => s!"failed to read fixture {name}"
  | refused name left right cause _ =>
    s!"{name}: statement on lines {left.displayLine}:{right.displayLine} is invalid: " ++
      cause.message
  | empty name => s!"empty test: no runnable statements found in {name}"
  | iterationLimit name limit position =>
    s!"internal error: parsing {name} exceeded the iteration limit of {limit} at byte " ++
      toString position.index

/-- The messages of what caused the failure. -/
def causes : BuildError → List String
  | unreadable _ cause => [cause]
  | refused _ _ _ cause _ => [cause.message]
  | _ => []

/-- The code of a failure. -/
def code : BuildError → String
  | unreadable .. => "sqltest::build::io"
  | refused .. => "sqltest::build::syntax"
  | empty _ => "sqltest::build::empty"
  | iterationLimit .. => "sqltest::internal::iteration_limit"

/-- The hint on what to do about a failure. -/
def help : BuildError → Option String
  | empty _ => some "a fixture needs at least one statement, assert or except"
  | iterationLimit .. =>
    some ("raise the limit for very long fixtures; otherwise the delimiter or an interpreter " ++
      "made no progress, which is an engine bug")
  | _ => none

/-- Code, hint, the mark on the refused statement, and the diagnostic of its cause. -/
def diagnostic (failure : BuildError) : Diagnostic :=
  .report failure.code failure.help
    (failure.span?.toList.map fun span => ⟨span.1, span.2, "in this statement"⟩)
    (failure.cause?.map StatementError.diagnostic)

end BuildError

end SqlFixture
