import SqlFixture.Diagnostic
import SqlFixture.Text.Quoted

/-
**Why a statement is refused.**

Each cause is a constructor; its wording, its code and its hint are functions of the cause.

* `StatementError.message`: one line for people;
* `StatementError.diagnostic`: code and hint.
-/

namespace SqlFixture

/-- A statement that breaks the rules of its directive, or is not text. -/
inductive StatementError where
  | defineMissingNewline
  | defineMissingKey
  | defineMissingQuery
  | defineKeyWhitespace (key : String)
  | defineDuplicate (key : String)
  | assertMissingKey
  | assertMissingValue
  | assertUndefined (key : String)
  | exceptMissingSubstring
  | exceptMissingQuery
  | invalidUtf8 (offset : Nat)
deriving Repr, DecidableEq, Inhabited

namespace StatementError

/-- The message of a cause. -/
def message : StatementError → String
  | defineMissingNewline => "missing newline after define statement"
  | defineMissingKey => "missing key in define statement"
  | defineMissingQuery => "missing query in define statement"
  | defineKeyWhitespace key => s!"key {Quoted.quote key} in define should not contain spaces"
  | defineDuplicate key => s!"duplicate key {Quoted.quote key} in define statement for test"
  | assertMissingKey => "missing key in assert statement"
  | assertMissingValue => "missing expected value in assert statement"
  | assertUndefined key => s!"assert uses not defined key {Quoted.quote key}"
  | exceptMissingSubstring => "missing exception substring in except statement"
  | exceptMissingQuery => "missing query in except statement"
  | invalidUtf8 offset => s!"invalid UTF-8 at byte {offset} of statement"

/-- The code of a cause. -/
def code : StatementError → String
  | defineMissingNewline => "sqltest::syntax::define_missing_newline"
  | defineMissingKey => "sqltest::syntax::define_missing_key"
  | defineMissingQuery => "sqltest::syntax::define_missing_query"
  | defineKeyWhitespace _ => "sqltest::syntax::define_key_whitespace"
  | defineDuplicate _ => "sqltest::syntax::define_duplicate"
  | assertMissingKey => "sqltest::syntax::assert_missing_key"
  | assertMissingValue => "sqltest::syntax::assert_missing_value"
  | assertUndefined _ => "sqltest::syntax::assert_undefined"
  | exceptMissingSubstring => "sqltest::syntax::except_missing_substring"
  | exceptMissingQuery => "sqltest::syntax::except_missing_query"
  | invalidUtf8 _ => "sqltest::syntax::invalid_utf8"

/-- The hint on how to mend a statement, for the causes that have one. -/
def help : StatementError → Option String
  | defineMissingNewline =>
    some "write the key on the first line and the query on the next: `define <key>\\n<query>`"
  | defineDuplicate _ => some "each key can be defined once per fixture"
  | assertMissingValue =>
    some "write the expected rows after the key: `assert <key> <expected>`"
  | assertUndefined _ => some "define the key earlier in the same fixture"
  | exceptMissingQuery => some "write the failing query on the line after `except <substring>`"
  | invalidUtf8 _ =>
    some "fixtures must be UTF-8; statement text is sent to the database unchanged"
  | _ => none

/-- Code and hint of a cause. -/
def diagnostic (cause : StatementError) : Diagnostic :=
  .report cause.code cause.help [] none

end StatementError

end SqlFixture
