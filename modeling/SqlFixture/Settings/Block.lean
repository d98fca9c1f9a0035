import SqlFixture.Settings.Scalar

/-
**Block scalars.**

A block scalar begins with a bar or an angle bracket and holds the indented lines below. Behind a
bar the lines stay apart; behind an angle bracket a single line end between two lines that do not
begin with a blank reads as a space. Signs in the first line tell what becomes of the line ends
behind the last line, and a digit tells the indentation.

* `BlockHeader.read`: the signs in the first line;
* `blockText`: what the lines read as;
* `readBlock`: the scalar at a cursor.
-/

namespace SqlFixture.Settings

/-! ### The first line -/

/-- What becomes of the line ends behind the last line. -/
inductive Chomping where
  /-- None of them stays. -/
  | strip
  /-- The first one stays. -/
  | clip
  /-- All of them stay. -/
  | keep
deriving Repr, DecidableEq

/-- The signs in the first line of a block scalar. -/
structure BlockHeader where
  /-- Whether the lines stay apart. -/
  isLiteral : Bool
  chomping : Chomping
  /-- The indentation below the surrounding mapping, if it is told. -/
  increment : Option Nat

namespace BlockHeader

/-- The sign of a chomping other than the usual one. -/
def chomping? (sign : Char) : Option Chomping :=
  if sign = '+' then some .keep else if sign = '-' then some .strip else none

/-- The indentation that a digit tells. -/
def increment? (digit : Char) : Option Nat :=
  if '1' ≤ digit && digit ≤ '9' then some (digit.toNat - '0'.toNat) else none

/-- Reads the signs of a header; each kind of sign may stand at most once. -/
def readSigns (header : BlockHeader) : List Char → BlockHeader × List Char
  | [] => (header, [])
  | first :: rest =>
    match chomping? first, increment? first with
    | some chomping, _ =>
      match rest.head?.bind increment? with
      | some increment => ({ header with chomping, increment := some increment }, rest.tail)
      | none => ({ header with chomping }, rest)
    | none, some increment =>
      match rest.head?.bind chomping? with
      | some chomping => ({ header with chomping, increment := some increment }, rest.tail)
      | none => ({ header with increment := some increment }, rest)
    | none, none => (header, first :: rest)

/-- Reads a first line: the signs, then at most blanks and a comment. -/
def read (isLiteral : Bool) (line : List Char) : Option BlockHeader :=
  let (header, behind) := readSigns ⟨isLiteral, .clip, none⟩ line
  match behind.dropWhile isBlank with
  | [] => some header
  | first :: _ => if first = '#' then some header else none

end BlockHeader

/-! ### The lines below -/

/-- The first line of a text. -/
structure Line where
  text : List Char
  /-- The character that ends the line; the last line of a text has none. -/
  ending : Option Char
  below : List Char

namespace Line

/-- The first line of a text. -/
def first (text : List Char) : Line :=
  match text.dropWhile fun character => !isBreak character with
  | [] => ⟨text, none, []⟩
  | ending :: below =>
    ⟨text.takeWhile fun character => !isBreak character, some ending, below⟩

theorem append_first (text : List Char) :
    (first text).text ++ (first text).ending.toList ++ (first text).below = text := by
  have parts := List.takeWhile_append_dropWhile (p := fun character => !isBreak character) (l := text)
  unfold first
  split
  · simp
  · next rest => simpa [rest] using parts

theorem length_below_lt {text : List Char} {ending : Char}
    (ends : (first text).ending = some ending) : (first text).below.length < text.length := by
  have parts := congrArg List.length (append_first text)
  simp only [ends, Option.toList_some, List.length_append, List.length_singleton] at parts
  omega

/-- The number of spaces in front of a line. -/
def spaces (line : Line) : Nat := (line.text.takeWhile (· = ' ')).length

end Line

/-- The indentation of a block: that of its first line with text, or of a longer line of spaces
above it, and at least `least`. A tab may not stand in front of the text. -/
def findIndent (least : Nat) (text : List Char) : Option Nat :=
  let line := Line.first text
  let indent := max least line.spaces
  match line.text.drop line.spaces, ends : line.ending with
  | [], some _ =>
    have := Line.length_below_lt ends
    findIndent indent line.below
  | [], none => some indent
  | character :: _, _ => if character = '\t' then none else some indent
termination_by text.length

/-- A block that is being read. -/
structure BlockState where
  /-- The characters so far, the last one first. -/
  done : List Char
  /-- The character that ended the last line. -/
  ending : Option Char
  /-- What ended the empty lines below it, the last one first. -/
  breaks : List Char
  wasBlank : Bool

namespace BlockState

/-- The block before its first line. -/
def start : BlockState := ⟨[], none, [], false⟩

/-- Adds an empty line. -/
def addBreak (state : BlockState) (ending : Char) : BlockState :=
  { state with breaks := ending :: state.breaks }

/-- Adds a line with text. -/
def add (isLiteral : Bool) (state : BlockState) (text : List Char) (ending : Option Char) :
    BlockState :=
  let beginsBlank := text.head?.any isBlank
  let joins := !isLiteral && state.ending = some '\n' && !state.wasBlank && !beginsBlank
  let between :=
    if joins then (if state.breaks.isEmpty then [' '] else state.breaks)
    else state.breaks ++ state.ending.toList
  ⟨text.reverse ++ between ++ state.done, ending, [], beginsBlank⟩

/-- The characters of the block, when its last line has been read. -/
def finish (chomping : Chomping) (state : BlockState) : List Char :=
  let last := match chomping with
    | .strip => []
    | .clip => state.ending.toList
    | .keep => state.breaks ++ state.ending.toList
  (last ++ state.done).reverse

end BlockState

/-- The cursor below the line that it stands before. -/
def Cursor.nextLine (cursor : Cursor) : Cursor :=
  let line := Line.first cursor.rest
  (cursor.drop line.text.length).newLine line.below

/-- Reads lines as long as they are indented, and returns the cursor before those that are left. A
line that ends within the indentation is empty; a tab may not stand in the indentation. -/
def readLines (isLiteral : Bool) (indent : Nat) (state : BlockState) (cursor : Cursor) :
    Option (BlockState × Cursor) :=
  let line := Line.first cursor.rest
  let skipped := min indent line.spaces
  match line.text.drop skipped, ends : line.ending with
  | [], some ending =>
    have := Line.length_below_lt ends
    readLines isLiteral indent (state.addBreak ending) cursor.nextLine
  | [], none => some (state, cursor)
  | first :: text, some ending =>
    if skipped < indent then (if first = '\t' then none else some (state, cursor))
    else
      have := Line.length_below_lt ends
      readLines isLiteral indent (state.add isLiteral (first :: text) (some ending))
        cursor.nextLine
  | first :: text, none =>
    if skipped < indent then (if first = '\t' then none else some (state, cursor))
    else some (state.add isLiteral (first :: text) none, cursor.nextLine)
termination_by cursor.rest.length

/-- Reads the block scalar that begins at a cursor, in a mapping that is indented to the column
`parent`. -/
def readBlock (parent : Nat) (cursor : Cursor) : Option (String × ScalarStyle × Cursor) := do
  let header := Line.first cursor.rest.tail
  let isLiteral := cursor.rest.head? = some '|'
  let signs ← BlockHeader.read isLiteral header.text
  let indent ← match signs.increment with
    | some increment => some (parent + increment)
    | none => findIndent (parent + 1) header.below
  let (state, last) ← readLines isLiteral indent .start cursor.nextLine
  let style := if isLiteral then ScalarStyle.literal else .folded
  return (String.ofList (state.finish signs.chomping), style, last.withKey)

end SqlFixture.Settings
