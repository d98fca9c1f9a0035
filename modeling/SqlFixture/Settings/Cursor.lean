/-
**Reading places in a settings text.**

A cursor stands before the characters that are still to be read and knows its line and column. Line
ends are unified before reading begins, so that a line ends in a newline or in one of the two
Unicode separators.

* `unifyLines`: the text with one spelling of the line end, if all its characters are allowed;
* `Cursor.skip`: the cursor before the next character that is neither blank nor comment;
* `Cursor.atMarker`: whether a document marker stands at the cursor.
-/

namespace SqlFixture.Settings

/-! ### Characters -/

/-- Characters that may stand in a settings text. -/
def isAllowed (character : Char) : Bool :=
  let code := character.toNat
  code = 0x09 || code = 0x0A || code = 0x0D || (0x20 ≤ code && code ≤ 0x7E) || code = 0x85 ||
    (0xA0 ≤ code && code ≤ 0xFFFD) || 0x10000 ≤ code

/-- Characters that end a line. -/
def isBreak (character : Char) : Bool :=
  character = '\n' || character = '\u2028' || character = '\u2029'

/-- Space and tab. -/
def isBlank (character : Char) : Bool := character = ' ' || character = '\t'

/-- ASCII letters and digits, hyphen and underscore. -/
def isWord (character : Char) : Bool :=
  character.isAlphanum || character = '-' || character = '_'

/-- Writes every line end but the two separators as a newline. -/
def unifyBreaks : List Char → List Char
  | [] => []
  | '\r' :: '\n' :: rest => '\n' :: unifyBreaks rest
  | character :: rest =>
    (if character = '\r' || character = '\x85' then '\n' else character) :: unifyBreaks rest

/-- The characters of a text with unified line ends, if all of them are allowed. -/
def unifyLines (text : String) : Option (List Char) :=
  if text.toList.all isAllowed then some (unifyBreaks text.toList) else none

/-- Whether nothing, a blank or a line end comes next. -/
def endsToken : List Char → Bool
  | [] => true
  | character :: _ => isBlank character || isBreak character

/-! ### Cursors -/

/-- A place in a text. -/
structure Cursor where
  rest : List Char
  /-- Characters before the place. -/
  offset : Nat
  line : Nat
  column : Nat
  /-- Whether a key of a block mapping may begin here. -/
  keyAllowed : Bool

namespace Cursor

/-- The beginning of a text. -/
def start (text : List Char) : Cursor := ⟨text, 0, 0, 0, true⟩

/-- The cursor before `rest`, behind a character that ends no line. -/
def step (cursor : Cursor) (rest : List Char) : Cursor :=
  { cursor with rest, offset := cursor.offset + 1, column := cursor.column + 1 }

/-- The cursor before `rest`, behind the end of a line. -/
def newLine (cursor : Cursor) (rest : List Char) : Cursor :=
  { cursor with rest, offset := cursor.offset + 1, line := cursor.line + 1, column := 0 }

/-- The cursor `count` characters further on the same line. -/
def drop (cursor : Cursor) (count : Nat) : Cursor :=
  { cursor with
    rest := cursor.rest.drop count
    offset := cursor.offset + count
    column := cursor.column + count }

/-- The cursor where no key may begin. -/
def withoutKey (cursor : Cursor) : Cursor := { cursor with keyAllowed := false }

/-- The cursor where a key may begin. -/
def withKey (cursor : Cursor) : Cursor := { cursor with keyAllowed := true }

/-- Whether nothing is left. -/
def atEnd (cursor : Cursor) : Bool := cursor.rest.isEmpty

/-- Whether `marker` stands here, alone at the beginning of a line. -/
def atMarker (marker : String) (cursor : Cursor) : Bool :=
  cursor.column = 0 && marker.toList.isPrefixOf cursor.rest &&
    endsToken (cursor.rest.drop marker.toList.length)

/-- Whether a marker between documents stands here. -/
def atDocumentMarker (cursor : Cursor) : Bool := cursor.atMarker "---" || cursor.atMarker "..."

/-- Skips blanks, line ends and comments; `inComment` tells whether a comment is being skipped.
Outside brackets, a tab may not stand where a key may begin, and a key may begin on every line. A
byte order mark at the beginning of a line is skipped too and keeps its column. -/
def skipFrom (inBrackets inComment : Bool) (cursor : Cursor) : List Char → Cursor
  | [] => { cursor with rest := [] }
  | character :: rest =>
    if isBreak character then
      let below := cursor.newLine rest
      skipFrom inBrackets false
        { below with keyAllowed := below.keyAllowed || !inBrackets } rest
    else if inComment then skipFrom inBrackets true (cursor.step rest) rest
    else if cursor.column = 0 && character = '\ufeff' then
      skipFrom inBrackets false (cursor.step rest) rest
    else if character = '#' then skipFrom inBrackets true (cursor.step rest) rest
    else if character = ' ' || character = '\t' && (inBrackets || !cursor.keyAllowed) then
      skipFrom inBrackets false (cursor.step rest) rest
    else { cursor with rest := character :: rest }

/-- The cursor before the next character that is neither blank nor comment. -/
def skip (inBrackets : Bool) (cursor : Cursor) : Cursor :=
  skipFrom inBrackets false cursor cursor.rest

end Cursor

end SqlFixture.Settings
