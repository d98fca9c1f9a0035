import SqlFixture.Directive
import SqlFixture.Fixture
import SqlFixture.Scan.Comment
import SqlFixture.Scan.Terminator

/-
**From the bytes of a fixture to a test.**

The reader skips blanks, cuts off a chunk at the delimiter, drops it if it is all comment, and
otherwise offers it to the interpreters. It does so for at most `limit` remainders that are not
blank; a delimiter that cuts off nothing uses up all of them.

* `Remainder.cut?`: one cut;
* `Progress.take`: what a chunk adds to the context and the statements;
* `Loop.pass`, `Loop.finish`: one pass of the loop, and all of them, bounded by the limit;
* `Test.build`: the test of a fixture.
-/

namespace SqlFixture

/-- Finds the end of the statement that bytes begin with. -/
abbrev Delimiter := Bytes → Position

/-- The limit of reading unless another one is chosen. -/
def Config.usualLimit : Nat := 100

/-- How fixtures are read. -/
structure Config where
  /-- The number of remainders that are looked at. -/
  limit : Nat := Config.usualLimit
  delimiter : Delimiter := Scan.statementEnd
  interpreters : List Interpreter := Directive.standard

namespace Config

/-- The configuration with another limit; zero stands for the usual one. -/
def withLimit (config : Config) (limit : Nat) : Config :=
  { config with limit := if limit = 0 then usualLimit else limit }

end Config

/-! ### Cutting off chunks -/

/-- A stretch of a fixture that the delimiter cut off. -/
structure Chunk where
  /-- The place of its first byte. -/
  left : Position
  /-- The place behind its last byte, as the delimiter tells it. -/
  right : Position
  source : Bytes
deriving Repr, DecidableEq

/-- The part of a fixture that is still to be cut. -/
structure Remainder where
  /-- The place of its first byte. -/
  cursor : Position
  /-- Its bytes. -/
  bytes : Bytes
deriving Repr, DecidableEq

namespace Remainder

/-- The whole of a fixture. -/
def whole (fixture : Bytes) : Remainder := ⟨.start, fixture⟩

/-- The remainder without the blanks in front. -/
def skipBlank (remainder : Remainder) : Remainder :=
  ⟨remainder.cursor + Scan.skipBlank remainder.bytes, Scan.afterBlanks remainder.bytes⟩

/-- Cuts off what the delimiter marks, up to the end of the bytes; `none` if it marks nothing. -/
def cut? (delimiter : Delimiter) (remainder : Remainder) : Option (Chunk × Remainder) :=
  let mark := delimiter remainder.bytes
  if mark.index = 0 then none
  else
    let source := remainder.bytes.take mark.index
    let right := remainder.cursor + ⟨mark.line, source.length⟩
    some (⟨remainder.cursor, right, source⟩, ⟨right, remainder.bytes.drop mark.index⟩)

end Remainder

/-! ### Reading chunks -/

/-- What the chunks so far amount to. -/
structure Progress where
  /-- The definitions. -/
  context : Context
  /-- The acting statements, the last one first. -/
  recorded : List Statement

namespace Progress

/-- Nothing read yet. -/
def start : Progress := ⟨.empty, []⟩

/-- Adds an acting statement. -/
def record (progress : Progress) (chunk : Chunk) (action : Action) : Progress :=
  { progress with
    recorded := ⟨chunk.left, chunk.right, chunk.source, action⟩ :: progress.recorded }

/-- Adds a chunk. It has to be UTF-8; if all of it is comment, it adds nothing. -/
def take (interpreters : List Interpreter) (progress : Progress) (chunk : Chunk) :
    Except StatementError Progress := do
  let sql ← Directive.text chunk.source
  let probe := Scan.afterComments chunk.source
  if probe.isEmpty then
    return progress
  match ← Directive.interpret interpreters progress.context probe with
  | .notMatched => return progress.record chunk (.exec sql)
  | .context next => return { progress with context := next }
  | .action action => return progress.record chunk action

end Progress

/-! ### The loop -/

/-- Why reading stops before the end of a fixture. -/
inductive Stop where
  /-- A chunk is refused. -/
  | refused (chunk : Chunk) (cause : StatementError)
  /-- The budget is used up at this place. -/
  | limit (position : Position)
deriving Repr, DecidableEq

/-- Where reading stands between two passes. -/
structure Loop where
  /-- The number of remainders that may still be looked at. -/
  budget : Nat
  progress : Progress
  /-- What is still to be cut. -/
  remainder : Remainder

/-- What one pass comes to. -/
inductive Pass where
  /-- Reading goes on from here. -/
  | next (loop : Loop)
  /-- Nothing but blanks was left. -/
  | finished (progress : Progress)
  /-- Reading stops early. -/
  | stopped (stop : Stop)

namespace Loop

/-- Nothing of a fixture is read yet. -/
def start (config : Config) (fixture : Bytes) : Loop := ⟨config.limit, .start, .whole fixture⟩

/-- One pass: skips blanks, then cuts off a chunk and reads it if the budget allows. A delimiter
that cuts off nothing costs a pass all the same. -/
def pass (config : Config) (loop : Loop) : Pass :=
  let trimmed := loop.remainder.skipBlank
  if trimmed.bytes.isEmpty then .finished loop.progress
  else
    match loop.budget with
    | 0 => .stopped (.limit trimmed.cursor)
    | budget + 1 =>
      match trimmed.cut? config.delimiter with
      | none => .next ⟨budget, loop.progress, trimmed⟩
      | some (chunk, rest) =>
        match loop.progress.take config.interpreters chunk with
        | .error cause => .stopped (.refused chunk cause)
        | .ok progress => .next ⟨budget, progress, rest⟩

/-- What a pass does that is not the last one: it skips blanks and uses up one of the budget, and
it either stalls there or takes a chunk. -/
theorem pass_eq_next {config : Config} {loop later : Loop}
    (passed : loop.pass config = .next later) :
    loop.remainder.skipBlank.bytes ≠ [] ∧ loop.budget = later.budget + 1 ∧
      ((loop.remainder.skipBlank.cut? config.delimiter = none ∧
          later.progress = loop.progress ∧ later.remainder = loop.remainder.skipBlank) ∨
        ∃ chunk,
          loop.remainder.skipBlank.cut? config.delimiter = some (chunk, later.remainder) ∧
          loop.progress.take config.interpreters chunk = .ok later.progress) := by
  simp only [pass] at passed
  split at passed
  · cases passed
  next inked =>
    refine ⟨fun blank => inked (by rw [blank]; rfl), ?_⟩
    split at passed
    · cases passed
    next budget enough =>
      rw [enough]
      split at passed
      next stalled =>
        cases passed
        exact ⟨rfl, .inl ⟨stalled, rfl, rfl⟩⟩
      next chunk rest cut =>
        split at passed
        · cases passed
        next progress taken =>
          cases passed
          exact ⟨rfl, .inr ⟨chunk, cut, taken⟩⟩

/-- All passes. Each one uses up some of the budget, so that the loop ends for every delimiter. -/
def finish (config : Config) (loop : Loop) : Except Stop Progress :=
  match _ : loop.pass config with
  | .next later => later.finish config
  | .finished progress => .ok progress
  | .stopped stop => .error stop
termination_by loop.budget
decreasing_by
  have spent := (pass_eq_next ‹loop.pass config = .next later›).2.1
  omega

end Loop

/-- The failure that a stop amounts to for the fixture called `name`. -/
def Stop.failure (name : String) (fixture : Bytes) (limit : Nat) : Stop → BuildError
  | refused chunk cause => .refused name chunk.left chunk.right cause (Utf8.lossy fixture)
  | .limit position => .iterationLimit name limit position

namespace Test

/-- The test that a fixture amounts to. -/
def build (config : Config) (name : String) (fixture : Bytes) : Except BuildError Test :=
  match (Loop.start config fixture).finish config with
  | .error stop => .error (stop.failure name fixture config.limit)
  | .ok progress =>
    if progress.recorded.isEmpty then .error (.empty name)
    else .ok ⟨name, progress.context, progress.recorded.reverse⟩

/-- The test of a fixture that is read from elsewhere, where reading may fail with a message. -/
def buildFrom (config : Config) (name : String) :
    Except String Bytes → Except BuildError Test
  | .error cause => .error (.unreadable name cause)
  | .ok fixture => build config name fixture

end Test

end SqlFixture
