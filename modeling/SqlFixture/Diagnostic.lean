/-
**What is told about an error besides its message.**

An error has a message, the messages of the errors that caused it, and a diagnostic: a code by which
tools know it, a hint, marked byte ranges of the fixture, and the diagnostic of the error it wraps.

* `Diagnostic.codes`: the codes of a diagnostic and of those inside it, the outer ones first.
-/

namespace SqlFixture

/-- A marked range of a text. -/
structure Label where
  /-- Bytes before the range. -/
  offset : Nat
  length : Nat
  text : String
deriving Repr, DecidableEq

/-- The structured part of an error report. -/
inductive Diagnostic where
  /-- A code, a hint, labels, and the diagnostic of the wrapped error. -/
  | report (code : String) (help : Option String) (labels : List Label)
    (inner : Option Diagnostic)
deriving Repr

namespace Diagnostic

/-- The code of the outermost error. -/
def code : Diagnostic → String
  | report code _ _ _ => code

/-- The codes of a diagnostic and of all that it wraps. -/
def codes : Diagnostic → List String
  | report code _ _ none => [code]
  | report code _ _ (some inner) => code :: codes inner

end Diagnostic

end SqlFixture
