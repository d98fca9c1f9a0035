import SqlFixture.Fixture
import SqlFixture.Text.Quoted

/-
**Telling the statements of a test.**

A test is told statement by statement, as lines for people or as JSON for programs. Lines count
from one, bytes from zero.

* `Summary`, `Test.summaries`: what is told of a statement;
* `Summary.lines`: a headline, then the source with four spaces in front of each line;
* `Json.listing`: all summaries as a JSON array, one member per line.
-/

namespace SqlFixture

/-- What is told of a statement. -/
structure Summary where
  startLine : Nat
  endLine : Nat
  startByte : Nat
  endByte : Nat
  kind : String
  source : String
deriving Repr, DecidableEq

/-- What is told of a statement. -/
def Statement.summary (statement : Statement) : Summary :=
  ⟨statement.left.displayLine, statement.right.displayLine, statement.left.index,
    statement.right.index, statement.action.kind, statement.text⟩

/-- What is told of each statement of a test. -/
def Test.summaries (test : Test) : List Summary := test.statements.map Statement.summary

/-! ### For people -/

/-- A text without the carriage return at its end. -/
def dropReturn (reversed : List Char) : String :=
  match reversed with
  | '\r' :: rest => String.ofList rest.reverse
  | _ => String.ofList reversed.reverse

/-- The lines of a text, without the newline or the carriage return and newline that end them.
`begun` holds the characters of the first one so far, the last one first. -/
def linesFrom (begun : List Char) : List Char → List String
  | [] => if begun.isEmpty then [] else [String.ofList begun.reverse]
  | character :: rest =>
    if character = '\n' then dropReturn begun :: linesFrom [] rest
    else linesFrom (character :: begun) rest

/-- The lines of a text. A line end behind the last line begins no further one. -/
def textLines (text : String) : List String := linesFrom [] text.toList

/-- The column behind the longest kind. -/
def kindWidth : Nat := 6

/-- A text with spaces behind it up to a width. -/
def padded (width : Nat) (text : String) : String :=
  text ++ String.ofList (List.replicate (width - text.length) ' ')

/-- The headline of a summary. -/
def Summary.headline (summary : Summary) : String :=
  s!"{padded kindWidth summary.kind} lines {summary.startLine}:{summary.endLine} " ++
    s!"bytes {summary.startByte}:{summary.endByte}"

/-- The lines of a summary. -/
def Summary.lines (summary : Summary) : List String :=
  summary.headline :: (textLines summary.source).map ("    " ++ ·)

/-- Lines as they are written, each one with a newline behind it. -/
def writtenLines (lines : List String) : String := String.join (lines.map (· ++ "\n"))

/-- The statements of a test for people. -/
def Test.listing (test : Test) : String :=
  writtenLines (test.summaries.flatMap Summary.lines)

/-! ### For programs -/

namespace Json

/-- A character inside a JSON string. -/
def escape (character : Char) : String :=
  if character = '"' then "\\\""
  else if character = '\\' then "\\\\"
  else if character = '\n' then "\\n"
  else if character = '\r' then "\\r"
  else if character = '\t' then "\\t"
  else if character = '\x08' then "\\b"
  else if character = '\x0c' then "\\f"
  else if character.toNat < 0x10 then "\\u000" ++ Quoted.hexadecimal character.toNat
  else if character.toNat < 0x20 then "\\u00" ++ Quoted.hexadecimal character.toNat
  else character.toString

/-- A JSON string. -/
def string (text : String) : String := Quoted.enclose escape text

/-- Lines of which all but the last one end in a comma. -/
def separated : List String → List String
  | [] => []
  | [last] => [last]
  | line :: lines => (line ++ ",") :: separated lines

/-- The members of a summary's object, in the order in which they are written. -/
def members (summary : Summary) : List (String × String) :=
  [("start_line", toString summary.startLine), ("end_line", toString summary.endLine),
    ("start_byte", toString summary.startByte), ("end_byte", toString summary.endByte),
    ("kind", string summary.kind), ("source", string summary.source)]

/-- A summary as an object inside an array. -/
def object (summary : Summary) : String :=
  let lines := (members summary).map fun member => "    " ++ string member.1 ++ ": " ++ member.2
  "  \x7b\n" ++ "\n".intercalate (separated lines) ++ "\n  \x7d"

/-- Summaries as an array. -/
def listing (summaries : List Summary) : String :=
  if summaries.isEmpty then "[]"
  else "[\n" ++ "\n".intercalate (separated (summaries.map object)) ++ "\n]"

end Json

end SqlFixture
