import SqlFixture.Settings.Block
import SqlFixture.Settings.Prologue

/-
**Where mappings, keys and values begin.**

An indented mapping has no sign of its own: it begins at the column of its first key and ends before
a line that is indented less. Nor does a key that a question mark does not announce: only the colon
behind a scalar on the same line makes it a key. So where a key may begin, the tokens from there on
are kept apart until a colon follows or can follow no more.

* `Layout`: a place in a text with what is known of the mapping around it;
* `Layout.readToken`: the place behind the next token;
* `Token.scan`: the tokens of a text. A mapping inside a mapping has none, since no settings are
  written so.
-/

namespace SqlFixture.Settings

/-- The colon behind a key may stand up to this many characters behind the key's beginning. -/
def keyReach : Nat := 1024

/-- A place where a key may have begun. -/
structure PossibleKey where
  /-- Characters before the place. -/
  offset : Nat
  line : Nat
  column : Nat
  /-- Whether nothing but a key may stand there. -/
  isRequired : Bool
  /-- The tokens from there on, the last one first. -/
  tokens : List Token

/-- Whether a colon at a cursor comes too late for a key. -/
def PossibleKey.isOver (key : PossibleKey) (cursor : Cursor) : Bool :=
  key.line < cursor.line || key.offset + keyReach < cursor.offset

/-- A place in a text with what is known of the mapping around it. -/
structure Layout where
  cursor : Cursor
  /-- The column of the indented mapping around the place, if there is one. -/
  indent : Option Nat
  inBraces : Bool
  /-- Where a key may have begun to which a colon at this place would belong. -/
  possibleKey : Option PossibleKey
  /-- The tokens before the possible key, the last one first. -/
  done : List Token

namespace Layout

/-- The beginning of a text. -/
def start (text : List Char) : Layout := ⟨.start text, none, false, none, []⟩

/-- The layout with its place moved. -/
def moveTo (layout : Layout) (cursor : Cursor) : Layout := { layout with cursor }

/-- Adds a token. -/
def emit (token : Token) (layout : Layout) : Layout :=
  match layout.possibleKey with
  | none => { layout with done := token :: layout.done }
  | some key => { layout with possibleKey := some { key with tokens := token :: key.tokens } }

/-! ### Keys -/

/-- Gives up a possible key; a key that is required may not be given up. -/
def giveUpKey (layout : Layout) : Option Layout :=
  match layout.possibleKey with
  | none => some layout
  | some key =>
    if key.isRequired then none
    else some { layout with possibleKey := none, done := key.tokens ++ layout.done }

/-- Notes that a key may begin here, unless none may. A key is required at the column of the
indented mapping. -/
def expectKey (layout : Layout) : Option Layout :=
  if !layout.cursor.keyAllowed then some layout
  else do
    let free ← layout.giveUpKey
    let cursor := layout.cursor
    let isRequired := !layout.inBraces && layout.indent = some cursor.column
    return { free with
      possibleKey := some ⟨cursor.offset, cursor.line, cursor.column, isRequired, []⟩ }

/-! ### Indentation -/

/-- Lets an indented mapping begin at a column, unless it has already begun there. -/
def openMapping (column : Nat) (layout : Layout) : Option Layout :=
  match layout.indent with
  | none => some { layout.emit .mappingStart with indent := some column }
  | some indent => if indent < column then none else some layout

/-- Ends the indented mapping, if there is one. -/
def closeMapping (layout : Layout) : Layout :=
  if layout.indent.isSome then { layout.emit .mappingEnd with indent := none } else layout

/-- Moves on to the next character that counts. -/
def advance (layout : Layout) : Option Layout := do
  let cursor := layout.cursor.skip layout.inBraces
  let isOver := layout.possibleKey.any fun key => key.isOver cursor
  let fresh ← if isOver then layout.giveUpKey else some layout
  let next := fresh.moveTo cursor
  return if next.indent.any (cursor.column < ·) then next.closeMapping else next

/-- Ends what is open, so that nothing but a marker or a directive can follow. -/
def finish (layout : Layout) : Option Layout :=
  (layout.closeMapping.giveUpKey).map fun free => free.moveTo free.cursor.withoutKey

/-! ### Signs -/

/-- Adds a document marker. -/
def addMarker (token : Token) (layout : Layout) : Option Layout :=
  layout.finish.map fun free => (free.emit token).moveTo (free.cursor.drop 3)

/-- Adds the directive that begins here. -/
def addDirective (layout : Layout) : Option Layout := do
  let free ← layout.finish
  let (token, cursor) ← readDirective free.cursor
  return (free.emit token).moveTo cursor

/-- Adds an opening brace, which may not stand inside a mapping. -/
def addBraceOpen (layout : Layout) : Option Layout :=
  if layout.inBraces || layout.indent.isSome then none
  else layout.giveUpKey.map fun free =>
    { (free.emit .braceOpen).moveTo (free.cursor.drop 1).withKey with inBraces := true }

/-- Adds a closing brace. -/
def addBraceClose (layout : Layout) : Option Layout :=
  if !layout.inBraces then none
  else layout.giveUpKey.map fun free =>
    { (free.emit .braceClose).moveTo (free.cursor.drop 1).withoutKey with inBraces := false }

/-- Adds a comma between entries. -/
def addComma (layout : Layout) : Option Layout :=
  if !layout.inBraces then none
  else layout.giveUpKey.map fun free =>
    (free.emit .comma).moveTo (free.cursor.drop 1).withKey

/-- The layout behind a question mark or a colon that stands alone for a key or a value. Outside
braces, the mapping begins at its column, and a key may follow on its line. -/
def addSign (token : Token) (layout : Layout) : Option Layout :=
  let next := layout.cursor.drop 1
  if layout.inBraces then some ((layout.emit token).moveTo next.withoutKey)
  else if !layout.cursor.keyAllowed then none
  else (layout.openMapping layout.cursor.column).map fun opened =>
    (opened.emit token).moveTo next.withKey

/-- Adds a question mark, behind which a key begins. -/
def addKeySign (layout : Layout) : Option Layout := layout.giveUpKey.bind (addSign .key)

/-- Adds a colon, behind which a value begins. What stands before it from a possible key on is the
key. -/
def addValueSign (layout : Layout) : Option Layout :=
  match layout.possibleKey with
  | none => addSign .value layout
  | some key =>
    let before := { layout with possibleKey := none }
    let opened := if layout.inBraces then some before else before.openMapping key.column
    opened.map fun opened =>
      { opened with
        done := .value :: (key.tokens ++ .key :: opened.done)
        cursor := (layout.cursor.drop 1).withoutKey }

/-! ### Scalars, anchors and tags -/

/-- Adds the block that begins here, which has to stand inside an indented mapping. -/
def addBlock (layout : Layout) : Option Layout := do
  let indent ← layout.indent
  let free ← layout.giveUpKey
  let (text, style, cursor) ← readBlock indent free.cursor
  return (free.emit (.scalar text style)).moveTo cursor

/-- Reads a token that a key may begin with. Lines of a plain scalar below the first one are
indented deeper than the mapping around it. -/
def readPart (layout : Layout) : Option (Token × Cursor) :=
  let cursor := layout.cursor
  match cursor.rest with
  | [] => none
  | first :: rest =>
    let next := cursor.step rest
    if first = '*' then
      (readName next).map fun (name, behind) => (.reference name, behind)
    else if first = '&' then
      (readName next).map fun (name, behind) => (.anchor name, behind)
    else if first = '!' then
      (readTag layout.inBraces next).map fun (tag, behind) => (.tag tag, behind)
    else if first = '\'' || first = '"' then
      (readQuoted cursor).map fun (text, behind) => (.scalar text .quoted, behind)
    else if beginsPlain layout.inBraces cursor.rest then
      (readPlain layout.inBraces (layout.indent.elim 0 (· + 1)) cursor).map
        fun (text, behind) => (.scalar text .plain, behind)
    else none

/-- Adds a token that a key may begin with. -/
def addPart (layout : Layout) : Option Layout := do
  let expecting ← layout.expectKey
  let (token, cursor) ← layout.readPart
  return (expecting.emit token).moveTo cursor

/-- Adds the token that begins here. -/
def readToken (layout : Layout) : Option Layout :=
  match layout.cursor.rest with
  | [] => none
  | first :: rest =>
    let standsAlone := layout.inBraces || endsToken rest
    if layout.cursor.column = 0 && first = '%' then layout.addDirective
    else if layout.cursor.atMarker "---" then layout.addMarker .documentStart
    else if layout.cursor.atMarker "..." then layout.addMarker .documentEnd
    else if first = '\x7b' then layout.addBraceOpen
    else if first = '\x7d' then layout.addBraceClose
    else if first = ',' then layout.addComma
    else if first = '?' && standsAlone then layout.addKeySign
    else if first = ':' && standsAlone then layout.addValueSign
    else if !layout.inBraces && (first = '|' || first = '>') then layout.addBlock
    else layout.addPart

/-- The tokens of a text from a place on. `fuel` bounds their number. -/
def readTokens : (fuel : Nat) → Layout → Option (List Token)
  | 0, _ => none
  | fuel + 1, layout => do
    let next ← layout.advance
    if next.cursor.atEnd then
      return (← next.finish).done.reverse
    else readTokens fuel (← next.readToken)

end Layout

/-- The tokens of a text. Each of them takes at least one character. -/
def Token.scan (text : String) : Option (List Token) :=
  (unifyLines text).bind fun characters =>
    Layout.readTokens (characters.length + 1) (.start characters)

end SqlFixture.Settings
