import SqlFixture.Glob.Class
import SqlFixture.Path

/-
**The parts of a glob pattern.**

A pattern is a path whose components may hold wildcards. The components before the first one with a
wildcard name the directory where the search begins; the others are turned into pieces that match
paths relative to it, written with slashes.

* `Token.ofComponent`: the wildcards, classes and characters of one component;
* `Piece.ofComponents`: the pieces of all components, or the fault that spoils the pattern;
* `Pattern.parse`: a pattern divided at its first wildcard.
-/

namespace SqlFixture.Glob

/-- Why a pattern cannot be matched. -/
inductive Fault where
  | unterminatedClass
  | malformedClass
  | deepClass
  | tooLarge
deriving Repr, DecidableEq

/-- What is told about a fault. -/
def Fault.message : Fault → String
  | unterminatedClass => "unterminated character class"
  | malformedClass => "malformed character class"
  | deepClass => "deeply nested character class"
  | tooLarge => "pattern too large"

/-! ### One component -/

/-- A wildcard, class or character of a component. -/
inductive Token where
  | asterisk
  | question
  /-- A class, given by the marks between its brackets. -/
  | brackets (negated : Bool) (marks : List Mark)
  | plain (character : Char)
deriving Repr, DecidableEq

/-- A class whose closing bracket is still to come. -/
structure OpenClass where
  negated : Bool
  /-- Whether a character was read behind the opening bracket. -/
  begun : Bool
  /-- The marks read so far, the last one first. -/
  marks : List Mark

namespace OpenClass

/-- A class right behind its opening bracket. -/
def start : OpenClass := ⟨false, false, []⟩

/-- Reads one more character, which does not close the class. -/
def read (bracket : OpenClass) (character : Char) : OpenClass :=
  if !bracket.begun && character = '!' then ⟨true, true, []⟩
  else
    let mark := if bracket.begun && character = '-' then .hyphen else .plain character
    ⟨bracket.negated, true, mark :: bracket.marks⟩

end OpenClass

namespace Token

/-- Reads the characters of a component, behind an open class if there is one. -/
def ofCharacters : Option OpenClass → List Char → Except Fault (List Token)
  | none, [] => .ok []
  | some _, [] => .error .unterminatedClass
  | none, character :: rest =>
    if character = '[' then ofCharacters (some .start) rest
    else
      let token := if character = '*' then .asterisk
        else if character = '?' then .question
        else .plain character
      (ofCharacters none rest).map (token :: ·)
  | some bracket, character :: rest =>
    if character = ']' && bracket.begun then
      (ofCharacters none rest).map (.brackets bracket.negated bracket.marks.reverse :: ·)
    else ofCharacters (some (bracket.read character)) rest

/-- The tokens of a component. -/
def ofComponent (component : String) : Except Fault (List Token) :=
  ofCharacters none component.toList

end Token

/-! ### The whole pattern -/

/-- What a piece of a pattern matches in a path written with slashes. -/
inductive Piece where
  | character (value : Char)
  /-- Any character but the slash. -/
  | anyCharacter
  /-- Any run of characters other than the slash. -/
  | anyRun
  /-- A character of the class. A class may hold the slash. -/
  | oneOf (set : CharClass)
  /-- Any number of directory names, each with the slash behind it. -/
  | directories
  /-- Any run of characters other than the newline. -/
  | anyLine
deriving Repr, DecidableEq

namespace Piece

/-- The piece of a token; a class has to be one and must not be too deep. -/
def ofToken : Token → Except Fault Piece
  | .asterisk => .ok anyRun
  | .question => .ok anyCharacter
  | .plain value => .ok (character value)
  | .brackets negated marks =>
    match CharClass.ofBrackets negated marks with
    | some set => if set.nesting ≤ CharClass.maxNesting then .ok (oneOf set) else .error .deepClass
    | none => .error .malformedClass

/-- The pieces of tokens. -/
def ofTokens : List Token → Except Fault (List Piece)
  | [] => .ok []
  | token :: tokens => do
    let piece ← ofToken token
    let pieces ← ofTokens tokens
    return piece :: pieces

end Piece

/-- A component of a pattern. -/
inductive Component where
  /-- The double asterisk, which stands for any directories. -/
  | anyDirectories
  | name (tokens : List Token)
deriving Repr, DecidableEq

/-- Reads a component. -/
def Component.ofText (text : String) : Except Fault Component :=
  if text = "**" then .ok .anyDirectories else (Token.ofComponent text).map .name

/-- The pieces of components; a slash stands behind each name but the last one. -/
def Piece.ofComponents : List Component → Except Fault (List Piece)
  | [] => .ok []
  | [.anyDirectories] => .ok [anyLine]
  | [.name tokens] => ofTokens tokens
  | .anyDirectories :: components => (ofComponents components).map (directories :: ·)
  | .name tokens :: components => do
    let pieces ← ofTokens tokens
    let later ← ofComponents components
    return pieces ++ character '/' :: later

/-- Reads the texts of components. That some class is not closed is told before all else. -/
def Piece.ofTexts (texts : List String) : Except Fault (List Piece) := do
  let components ← texts.mapM Component.ofText
  ofComponents components

/-- Whether a component holds a wildcard or a class. -/
def hasWildcard (component : String) : Bool :=
  component.toList.any fun character =>
    character = '*' || character = '?' || character = '['

/-- A pattern, divided at its first wildcard. -/
inductive Pattern where
  | path (text : String)
  /-- The directory where the search begins, and the components from the first wildcard. -/
  | search (root : String) (components : List String)
deriving Repr, DecidableEq

/-- The directory that the components before the first wildcard name. -/
def rootText (isAbsolute : Bool) (components : List String) : String :=
  let joined := Path.joined components
  if joined.isEmpty then (if isAbsolute then "/" else ".") else joined

/-- Divides a pattern at its first component with a wildcard. -/
def Pattern.parse (text : String) : Pattern :=
  let components := Path.parts text
  let literal := components.takeWhile fun component => !hasWildcard component
  if literal.length = components.length then .path text
  else .search (rootText (text.toList.head? == some '/') literal) (components.drop literal.length)

end SqlFixture.Glob
